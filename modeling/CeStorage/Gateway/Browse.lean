import CeStorage.Gateway.ListDocument
import CeStorage.Gateway.ReadBack
import CeStorage.Index.Pages
import CeStorage.Lib.Cursor

/-!
# Browsing a bucket

A client lists a bucket page by page: it reads the document it is answered, and asks
for the next page with the token in it, while the listing was truncated. It holds
nothing in between, so each page may be of another state of the bucket. Each is a
stretch of the keys all the same (`list_stretch`), and the pages are a reading of them.

So the keys come in order and each once, and what was there all along is not missed
(`browsed`): in particular what was put before and is spared (`put_then_browsed`).
-/

namespace CeStorage

open Lib
open Std (ExtTreeMap)

/-! ## A page as a stretch -/

namespace Index

variable {keyPrefix : String} {delimiter token : Option String} {maxKeys : Nat} {bk : Bucket}
  {i : Index} {name : String} {page : ListPage}

theorem isAfter_iff {k : String} : isAfter token k = true ↔ Beyond token k := by
  unfold isAfter Beyond
  rw [Option.all_eq_true]
  simp only [decide_eq_true_iff, Option.mem_def]

theorem mem_after {p : String × ObjectMeta} :
    p ∈ (visible bk keyPrefix).filter (fun p => isAfter token p.1)
      ↔ p ∈ visible bk keyPrefix ∧ Beyond token p.1 := by
  rw [List.mem_filter, isAfter_iff]

/-- A page is of the entries after its token, up to and with the next one. -/
theorem list_stretch (hb : i.buckets[name]? = some bk)
    (h : i.list name keyPrefix delimiter token maxKeys = .ok page) :
    ∃ taken, Stretch token (visible bk keyPrefix) taken page.nextContinuation ∧
      page.keys = plainKeys keyPrefix delimiter taken ∧
      page.commonPrefixes = (folders keyPrefix delimiter taken).eraseDups ∧
      page.isTruncated = page.nextContinuation.isSome := by
  rw [list_eq hb] at h
  cases h
  have hsort : ((visible bk keyPrefix).filter fun p => isAfter token p.1).Pairwise
      fun p q => p.1 < q.1 := visible_sorted.filter _
  have hmem (p : String × ObjectMeta) :
      p ∈ (visible bk keyPrefix).filter (fun p => isAfter token p.1) ↔ _ := mem_after
  generalize (visible bk keyPrefix).filter (fun p => isAfter token p.1) = l at hsort hmem ⊢
  have hend : PageEnd keyPrefix delimiter (max maxKeys 1) [] l _ := scan_pageOf (Nat.zero_le _)
  generalize scan keyPrefix delimiter (max maxKeys 1) l (pageOf keyPrefix delimiter []) = st
    at hend ⊢
  rcases hend with ⟨rfl, -⟩ | ⟨taken, p, after, rfl, rfl, hfull, -⟩
  · refine ⟨l, ⟨hsort, ?_, fun n hn => nomatch hn⟩, rfl, rfl, rfl⟩
    intro p
    rw [hmem p]
    exact and_congr_right fun _ => (and_iff_left fun n hn => nomatch hn).symm
  · rw [List.nil_append] at hfull ⊢
    -- a full page has a last entry, whose key is the next token
    obtain ⟨init, q, rfl⟩ : ∃ init q, taken = init ++ [q] := by
      rcases List.eq_nil_or_concat taken with rfl | ⟨init, q, h⟩
      · have hzero : (0 : Nat) = max maxKeys 1 := hfull
        omega
      · exact ⟨init, q, by rw [h, List.concat_eq_append]⟩
    have hnext : (ListState.page { pageOf keyPrefix delimiter (init ++ [q]) with
        truncated := true } (max maxKeys 1)).nextContinuation = some q.1 := by
      simp [ListState.page, pageOf]
    obtain ⟨hfirst, -, hlt⟩ := List.pairwise_append.mp hsort
    refine ⟨init ++ [q], ?_, rfl, rfl, by rw [hnext]; rfl⟩
    rw [hnext]
    refine ⟨hfirst, fun r => ⟨fun hr => ?_, fun hr => ?_⟩, fun n hn => ?_⟩
    · obtain ⟨hvisible, hbeyond⟩ := (hmem r).mp (List.mem_append_left _ hr)
      refine ⟨hvisible, hbeyond, ?_⟩
      intro n hn
      cases hn
      rcases List.mem_append.mp hr with hr | hr
      · exact le_of_lt ((List.pairwise_append.mp hfirst).2.2 r hr q List.mem_cons_self)
      · rw [List.mem_singleton.mp hr]
    · rcases List.mem_append.mp ((hmem r).mpr ⟨hr.1, hr.2.1⟩) with htaken | hlater
      · exact htaken
      · exact absurd (hlt q (by simp) r hlater) (not_lt_of_ge (hr.2.2 _ rfl))
    · cases hn
      exact ⟨q.2, by simp⟩

end Index

/-! ## The client -/

/-- A listing request, from a token on. -/
structure HttpRequest.Lists (req : HttpRequest) (bucket keyPrefix : String)
    (delimiter token : Option String) : Prop where
  method : req.method = .get
  path : req.path = .bucket bucket
  keyPrefix : req.query["prefix"]?.getD "" = keyPrefix
  delimiter : req.query["delimiter"]? = delimiter
  token : req.query["continuation-token"]?.or req.query["start-after"]? = token

/-- What a client reads of a response to it. -/
def Response.listing (r : Response) : Option Listing :=
  if r.status = 200 then
    match r.body with
    | .text doc => Listing.read doc
    | _ => none
  else none

/-- What a listing says of an object. -/
def ObjectMeta.entry (k : String) (m : ObjectMeta) : String × Nat × Nat × String :=
  (k, m.lastModified, m.size, m.etag)

/-- The requests of a client that browses a bucket from a token on, each with what the
client read: it asks for the next page while the last was truncated. -/
inductive Browses (ce : CeRs) (gw : Gateway) (bucket keyPrefix : String)
    (delimiter : Option String) : Option String → List (Exchange × Listing) → Prop
  | last {token : Option String} {e : Exchange} {l : Listing}
      (hreq : e.req.Lists bucket keyPrefix delimiter token)
      (hread : (e.reply ce gw).response.listing = some l) (hend : l.isTruncated = false) :
      Browses ce gw bucket keyPrefix delimiter token [(e, l)]
  | more {token : Option String} {e : Exchange} {l : Listing} {rest : List (Exchange × Listing)}
      (hreq : e.req.Lists bucket keyPrefix delimiter token)
      (hread : (e.reply ce gw).response.listing = some l) (hmore : l.isTruncated = true)
      (hrest : Browses ce gw bucket keyPrefix delimiter l.nextContinuation rest) :
      Browses ce gw bucket keyPrefix delimiter token ((e, l) :: rest)

section
variable {ce : CeRs} {gw : Gateway} {bucket keyPrefix : String} {delimiter token : Option String}
  {e : Exchange} {l : Listing}

/-- A page that a client read, with the bucket that it is a page of and the entries
that the page was made from. -/
structure ReadPage where
  exchange : Exchange
  listing : Listing
  bucket : Bucket
  taken : List (String × ObjectMeta)

/-- The page is of a bucket of the gateway's index, and of a stretch of its keys. -/
structure ReadPage.Is (bucket keyPrefix : String) (delimiter token : Option String)
    (p : ReadPage) : Prop where
  found : p.exchange.store.index.buckets[bucket]? = some p.bucket
  stretch : Stretch token (Index.visible p.bucket keyPrefix) p.taken p.listing.nextContinuation
  contents : p.listing.contents
    = (Index.plainKeys keyPrefix delimiter p.taken).map fun q => q.2.entry q.1
  commonPrefixes : p.listing.commonPrefixes
    = (Index.folders keyPrefix delimiter p.taken).eraseDups
  isTruncated : p.listing.isTruncated = p.listing.nextContinuation.isSome

theorem listing_status {r : Response} (h : r.status ≠ 200) : r.listing = none := if_neg h

/-- A document that is written for a page is read as the page. -/
theorem listing_listBody (page : ListPage) :
    (Response.xml 200 (Gateway.listBody bucket keyPrefix delimiter page)).listing
      = some (page.listing bucket keyPrefix delimiter) := by
  show Listing.read _ = _
  unfold Listing.read
  rw [toList_listBody, Markup.read_written (clean_list bucket keyPrefix delimiter page)
    (writes_list bucket keyPrefix delimiter page)]
  show (if "ListBucketResult".toList = "ListBucketResult".toList then _ else none) = _
  rw [if_pos rfl]
  exact Listing.readElement_listElement

/-- The page size that a request asks for. -/
def HttpRequest.maxKeys (req : HttpRequest) : Nat :=
  ((req.query["max-keys"]?.bind Str.parseU64).map fun n => min (max n 1) 100000).getD 1000

theorem HttpRequest.Lists.route (ce : CeRs) (gw : Gateway) {req : HttpRequest}
    (h : req.Lists bucket keyPrefix delimiter token) :
    Gateway.route ce gw req = Gateway.listObjects bucket req := by
  unfold Gateway.route
  rw [h.path, h.method]

/-- What a listing request that is let through is answered. -/
theorem reply_lists (hreq : e.req.Lists bucket keyPrefix delimiter token)
    (hauth : gw.authorize e.req e.env.now ⟨abilityRead, bucket, ""⟩ = .ok ()) :
    (∀ page, e.store.index.list bucket keyPrefix delimiter token e.req.maxKeys = .ok page →
      (e.reply ce gw).response = .xml 200 (Gateway.listBody bucket keyPrefix delimiter page)) ∧
    ∀ m, e.store.index.list bucket keyPrefix delimiter token e.req.maxKeys = .error m →
      (e.reply ce gw).response = err 404 "NoSuchBucket" m := by
  have hroute := hreq.route ce gw
  obtain ⟨-, -, rfl, rfl, rfl⟩ := hreq
  unfold Exchange.reply serve
  rw [hroute]
  unfold Gateway.listObjects
  rw [(Gate.run_check hauth).1]
  dsimp only [Gate.run]
  rw [exec_bind_ok exec_self, exec_lift]
  unfold Store.listObjects
  constructor
  · intro page h
    unfold HttpRequest.maxKeys at h
    rw [h]
  · intro m h
    unfold HttpRequest.maxKeys at h
    rw [h]

theorem page_read (hreq : e.req.Lists bucket keyPrefix delimiter token)
    (hread : (e.reply ce gw).response.listing = some l) :
    ∃ bk taken, ReadPage.Is bucket keyPrefix delimiter token ⟨e, l, bk, taken⟩ := by
  cases hauth : gw.authorize e.req e.env.now ⟨abilityRead, bucket, ""⟩ with
  | error r =>
    unfold Exchange.reply serve at hread
    rw [hreq.route ce gw] at hread
    unfold Gateway.listObjects Gate.run at hread
    rw [hauth, listing_status (by rw [authorize_error hauth]; decide)] at hread
    cases hread
  | ok u =>
    obtain ⟨hpage, herror⟩ : (∀ page, _ → (e.reply ce gw).response = _) ∧ _ :=
      reply_lists hreq hauth
    cases hlist : e.store.index.list bucket keyPrefix delimiter token e.req.maxKeys with
    | error m =>
      rw [herror m hlist, listing_status (show (404 : Nat) ≠ 200 by decide)] at hread
      cases hread
    | ok page =>
      rw [hpage page hlist] at hread
      cases (listing_listBody page).symm.trans hread
      obtain ⟨bk, hb⟩ : ∃ bk, e.store.index.buckets[bucket]? = some bk := by
        unfold Index.list at hlist
        cases hb : e.store.index.bucket bucket with
        | error m =>
          rw [hb] at hlist
          cases hlist
        | ok bk => exact ⟨bk, Index.bucket_eq_ok.mp hb⟩
      obtain ⟨taken, hstretch, hkeys, hprefixes, htruncated⟩ := Index.list_stretch hb hlist
      refine ⟨bk, taken, hb, hstretch, ?_, hprefixes, htruncated⟩
      show page.keys.map _ = _
      rw [hkeys]
      rfl

variable {pages : List (Exchange × Listing)} {p : ReadPage} {k cp : String} {m : ObjectMeta}

/-- The pages that a client read are a reading of the bucket. -/
theorem Browses.reading (h : Browses ce gw bucket keyPrefix delimiter token pages) :
    ∃ ps : List ReadPage, pages = ps.map (fun p => (p.exchange, p.listing)) ∧
      (∀ p ∈ ps, ∃ token, p.Is bucket keyPrefix delimiter token) ∧
      Reading token (ps.map fun p => (Index.visible p.bucket keyPrefix, p.taken)) := by
  induction h with
  | @last token e l hreq hread hend =>
    obtain ⟨bk, taken, hpage⟩ := page_read hreq hread
    have hlast : l.nextContinuation = none := by
      rw [← Option.not_isSome_iff_eq_none, ← hpage.isTruncated, hend]
      exact Bool.false_ne_true
    refine ⟨[⟨e, l, bk, taken⟩], rfl, ?_, .last (hlast ▸ hpage.stretch)⟩
    intro p hp
    cases List.mem_singleton.mp hp
    exact ⟨_, hpage⟩
  | @more token e l rest hreq hread hmore hrest ih =>
    obtain ⟨bk, taken, hpage⟩ := page_read hreq hread
    obtain ⟨ps, rfl, hps, hreading⟩ := ih
    obtain ⟨n, hn⟩ := Option.isSome_iff_exists.mp (hpage.isTruncated.symm.trans hmore)
    refine ⟨⟨e, l, bk, taken⟩ :: ps, rfl, ?_, .more (hn ▸ hpage.stretch) (hn ▸ hreading)⟩
    intro p hp
    rcases List.mem_cons.mp hp with rfl | hp
    · exact ⟨_, hpage⟩
    · exact hps p hp

namespace ReadPage.Is

/-- What a page lists is in the bucket. -/
theorem listed (h : p.Is bucket keyPrefix delimiter token) {entry : String × Nat × Nat × String}
    (hentry : entry ∈ p.listing.contents) : ∃ k m, entry = m.entry k ∧
      Index.Listed p.exchange.store.index bucket keyPrefix delimiter k m := by
  rw [h.contents] at hentry
  obtain ⟨⟨k, m⟩, hmem, rfl⟩ := List.mem_map.mp hentry
  obtain ⟨htaken, hplain⟩ := List.mem_filter.mp hmem
  refine ⟨k, m, rfl, (Index.mem_plainKeys h.found).mp (List.mem_filter.mpr ⟨?_, hplain⟩)⟩
  exact ((h.stretch.mem _).mp htaken).1

theorem folder (h : p.Is bucket keyPrefix delimiter token)
    (hcp : cp ∈ p.listing.commonPrefixes) :
    Index.Folder p.exchange.store.index bucket keyPrefix delimiter cp := by
  rw [h.commonPrefixes, List.mem_eraseDups] at hcp
  obtain ⟨q, htaken, hroll⟩ := Index.mem_folders.mp hcp
  refine (Index.mem_folders_visible h.found).mp (Index.mem_folders.mpr ⟨q, ?_, hroll⟩)
  exact ((h.stretch.mem q).mp htaken).1

/-- An entry that the page was made from is on it, if it does not roll up. -/
theorem mem_contents (h : p.Is bucket keyPrefix delimiter token) (hm : (k, m) ∈ p.taken)
    {m' : ObjectMeta} (hk : Index.Listed p.exchange.store.index bucket keyPrefix delimiter k m') :
    p.exchange.store.index.head bucket k = .ok m ∧ m.entry k ∈ p.listing.contents := by
  have hplain := (List.mem_filter.mp ((Index.mem_plainKeys h.found).mpr hk)).2
  refine ⟨((Index.mem_visible h.found).mp ((h.stretch.mem _).mp hm).1).2, ?_⟩
  rw [h.contents]
  exact List.mem_map.mpr ⟨(k, m), List.mem_filter.mpr ⟨hm, hplain⟩, rfl⟩

/-- A folder is on the page that was made from one of its keys. -/
theorem mem_commonPrefixes (h : p.Is bucket keyPrefix delimiter token) (hm : (k, m) ∈ p.taken)
    (hk : Str.startsWith k cp = true)
    (hcp : Index.Folder p.exchange.store.index bucket keyPrefix delimiter cp) :
    cp ∈ p.listing.commonPrefixes := by
  obtain ⟨⟨k', m'⟩, hmem, hroll⟩ :=
    Index.mem_folders.mp ((Index.mem_folders_visible h.found).mpr hcp)
  have hk' := ((Index.mem_visible h.found).mp hmem).1
  rw [h.commonPrefixes, List.mem_eraseDups]
  exact Index.mem_folders.mpr ⟨(k, m), hm, Index.rollup_of_startsWith hk' hroll hk⟩

end ReadPage.Is

section
variable {ps : List ReadPage}

theorem contents_eq (hps : ∀ p ∈ ps, ∃ token, p.Is bucket keyPrefix delimiter token) :
    ps.flatMap (·.listing.contents)
      = (Index.plainKeys keyPrefix delimiter (ps.flatMap (·.taken))).map
          fun q => q.2.entry q.1 := by
  induction ps with
  | nil => rfl
  | cons p ps ih =>
    obtain ⟨token, hp⟩ := hps p List.mem_cons_self
    have hrest := ih fun p' hp' => hps p' (List.mem_cons_of_mem _ hp')
    unfold Index.plainKeys at hrest ⊢
    rw [List.flatMap_cons, List.flatMap_cons, hrest, hp.contents, List.filter_append,
      List.map_append]
    rfl

variable (hreading : Reading none (ps.map fun p => (Index.visible p.bucket keyPrefix, p.taken)))
include hreading

/-- An interval of keys that no page finds empty is met by the entries of one. -/
theorem exists_taken {C : Set String} (hC : C.OrdConnected)
    (hall : ∀ p ∈ ps, ∃ q ∈ Index.visible p.bucket keyPrefix, q.1 ∈ C) :
    ∃ p ∈ ps, ∃ k m, (k, m) ∈ p.taken ∧ k ∈ C := by
  obtain ⟨piece, hpiece, ⟨k, m⟩, hm, hk⟩ := hreading.complete hC (fun k _ c hc => nomatch hc) (by
    intro piece hpiece
    obtain ⟨p, hp, rfl⟩ := List.mem_map.mp hpiece
    exact hall p hp)
  obtain ⟨p, hp, rfl⟩ := List.mem_map.mp hpiece
  exact ⟨p, hp, k, m, hm, hk⟩

variable (hps : ∀ p ∈ ps, ∃ token, p.Is bucket keyPrefix delimiter token)
include hps

theorem contents_sorted :
    ((ps.flatMap (·.listing.contents)).map (·.1)).Pairwise (· < ·) := by
  have hsorted := hreading.sorted
  rw [List.flatMap_map] at hsorted
  rw [contents_eq hps, List.map_map]
  exact List.pairwise_map.mpr (hsorted.filter _)

theorem entry_read (hall : ∀ p ∈ ps, ∃ m,
      Index.Listed p.exchange.store.index bucket keyPrefix delimiter k m) :
    ∃ p ∈ ps, ∃ m, p.exchange.store.index.head bucket k = .ok m ∧
      m.entry k ∈ p.listing.contents := by
  obtain ⟨p, hp, k', m, hm, rfl⟩ := exists_taken hreading (C := {k}) Set.ordConnected_singleton (by
    intro p hp
    obtain ⟨token, his⟩ := hps p hp
    obtain ⟨m, hm⟩ := hall p hp
    exact ⟨(k, m), (List.mem_filter.mp ((Index.mem_plainKeys his.found).mpr hm)).1, rfl⟩)
  obtain ⟨token, his⟩ := hps p hp
  obtain ⟨m', hm'⟩ := hall p hp
  exact ⟨p, hp, m, his.mem_contents hm hm'⟩

theorem folder_read (hall : ∀ p ∈ ps,
      Index.Folder p.exchange.store.index bucket keyPrefix delimiter cp) :
    ∃ p ∈ ps, cp ∈ p.listing.commonPrefixes := by
  have hC : Set.OrdConnected {k | Str.startsWith k cp = true} :=
    ⟨fun x hx y hy k hk => Str.startsWith_between hx hy hk.1 hk.2⟩
  obtain ⟨p, hp, k, m, hm, hk⟩ := exists_taken hreading hC (by
    intro p hp
    obtain ⟨token, his⟩ := hps p hp
    obtain ⟨q, hq, hroll⟩ :=
      Index.mem_folders.mp ((Index.mem_folders_visible his.found).mpr (hall p hp))
    have hpre := ((Index.mem_visible his.found).mp (show (q.1, q.2) ∈ _ from hq)).1
    exact ⟨q, hq, Index.startsWith_rollup hpre hroll⟩)
  obtain ⟨token, his⟩ := hps p hp
  exact ⟨p, hp, his.mem_commonPrefixes hm hk (hall p hp)⟩

end

/-- **What a client sees of a bucket that changes while it is browsed.** The bucket is that
of the index which the gateway has in memory. Over all pages, the keys are in order and
each is listed once; an entry or folder is listed only if it was in the bucket when its
page was made; and none is missed that was there for every page, an entry with its data,
a folder under whatever keys. -/
theorem browsed (ce : CeRs) (gw : Gateway) (bucket keyPrefix : String)
    (delimiter : Option String) (pages : List (Exchange × Listing))
    (h : Browses ce gw bucket keyPrefix delimiter none pages) :
    ((pages.flatMap fun p => p.2.contents).map (·.1)).Pairwise (· < ·) ∧
      (∀ p ∈ pages, (∀ entry ∈ p.2.contents, ∃ k m, entry = m.entry k ∧
          Index.Listed p.1.store.index bucket keyPrefix delimiter k m) ∧
        ∀ cp ∈ p.2.commonPrefixes, Index.Folder p.1.store.index bucket keyPrefix delimiter cp) ∧
      (∀ k, (∀ p ∈ pages, ∃ m, Index.Listed p.1.store.index bucket keyPrefix delimiter k m) →
        ∃ p ∈ pages, ∃ m, p.1.store.index.head bucket k = .ok m ∧ m.entry k ∈ p.2.contents) ∧
      ∀ cp, (∀ p ∈ pages, Index.Folder p.1.store.index bucket keyPrefix delimiter cp) →
        ∃ p ∈ pages, cp ∈ p.2.commonPrefixes := by
  obtain ⟨ps, rfl, hps, hreading⟩ := h.reading
  refine ⟨?_, ?_, ?_, ?_⟩
  · rw [List.flatMap_map]
    exact contents_sorted hreading hps
  · intro page hpage
    obtain ⟨p, hp, rfl⟩ := List.mem_map.mp hpage
    obtain ⟨token, his⟩ := hps p hp
    exact ⟨fun entry hentry => his.listed hentry, fun cp hcp => his.folder hcp⟩
  · intro k hall
    obtain ⟨p, hp, hread⟩ := entry_read hreading hps fun p hp => hall _ (List.mem_map_of_mem hp)
    exact ⟨_, List.mem_map_of_mem hp, hread⟩
  · intro cp hall
    obtain ⟨p, hp, hread⟩ := folder_read hreading hps fun p hp => hall _ (List.mem_map_of_mem hp)
    exact ⟨_, List.mem_map_of_mem hp, hread⟩

end

/-! ## What was put is listed -/

namespace Serving

variable {ce : CeRs} {gw : Gateway} {b k : String}

/-- The later requests of a run that spares the key find it on the gateway's handle. -/
theorem later_head (hce : ce.Lawful) {entry : ObjectEntry} {v : ObjectVersion} {bytes : Bytes}
    {x₁ x : Serving} (hcurrent : entry.current = some v) (hlive : v.isDeleteMarker = false)
    (hput : Keeping ce b k entry v.meta bytes x₁)
    (hx : Reach (fire ce gw) (Sparing ce gw b k) x₁ x) :
    ∃ later, x.log = x₁.log ++ later ∧ ∀ e ∈ later, e.store.index.head b k = .ok v.meta := by
  have hinv := hx.inv (I := fun y => Keeping ce b k entry v.meta bytes y ∧
    ∃ later, y.log = x₁.log ++ later ∧ ∀ e ∈ later, e.store.index.head b k = .ok v.meta)
    ⟨hput, [], (List.append_nil _).symm, fun e he => nomatch he⟩ ?_
  · exact hinv.2
  · intro y event y' _ hI hok hf
    obtain ⟨hkeep, later, hlog, hlater⟩ := hI
    refine ⟨fire_keeping hce hkeep hok hf, ?_⟩
    cases event with
    | elsewhere self env c =>
      cases hf
      exact ⟨later, hlog, hlater⟩
    | request req env =>
      cases hf
      refine ⟨later ++ [⟨req, env, y.store, y.world⟩], ?_, ?_⟩
      · rw [← List.append_assoc, ← hlog]
      · intro e he
        rcases List.mem_append.mp he with he | he
        · exact hlater e he
        · rw [List.mem_singleton.mp he]
          exact Index.head_eq_ok.mpr ⟨entry, v, hkeep.handle, hcurrent, hlive, rfl⟩

/-- **What was put is listed.** After a PutObject answered with 200, a client browses
the bucket while any requests and calls of other processes go on that spare the key.
Then the key is listed once, with the time, the size and the ETag of the put, or, if
the delimiter comes after the prefix in it, its folder is listed. -/
theorem put_then_browsed (ce : CeRs) (hce : ce.Lawful) (gw : Gateway) (x₀ : Serving)
    (haddr : Addressed ce x₀.world) (put : HttpRequest) (env₀ : Env) (henv₀ : env₀.Truthful ce)
    (b k : String) (htarget : put.target x₀.world = some (b, k))
    (hplain : put.isPlainPut = true)
    (hok : (serve ce gw put env₀ x₀.store x₀.world).response.status = 200) (x₁ x : Serving)
    (hx₁ : fire ce gw (.request put env₀) x₀ = some x₁)
    (hx : Reach (fire ce gw) (Sparing ce gw b k) x₁ x) (keyPrefix : String)
    (delimiter : Option String) (pages : List (Exchange × Listing))
    (hpages : Browses ce gw b keyPrefix delimiter none pages)
    (hlog : (x₁.log ++ pages.map (·.1)).Sublist x.log) (hk : Str.startsWith k keyPrefix = true) :
    let contents := pages.flatMap fun p => p.2.contents
    let folders := pages.flatMap fun p => p.2.commonPrefixes
    (contents.map (·.1)).Pairwise (· < ·) ∧
      (Index.rollup keyPrefix delimiter k = none → ∀ entry, entry ∈ contents ∧ entry.1 = k ↔
        entry = (k, env₀.now, put.body.length, ce.objectCid put.body)) ∧
      ∀ cp, Index.rollup keyPrefix delimiter k = some cp → cp ∈ folders := by
  obtain ⟨entry, v, hcurrent, hlive, hmeta, hput⟩ :=
    put_keeping hce haddr henv₀ htarget hplain hok hx₁
  obtain ⟨later, hlater, hheads⟩ := later_head hce hcurrent hlive hput hx
  have hsub : (pages.map (·.1)).Sublist later :=
    (List.append_sublist_append_left _).mp (hlater ▸ hlog)
  have hentry : v.meta.entry k = (k, env₀.now, put.body.length, ce.objectCid put.body) := by
    rw [hmeta]
    rfl
  obtain ⟨ps, rfl, hps, hreading⟩ := hpages.reading
  have hfound : ∀ p ∈ ps, p.exchange.store.index.head b k = .ok v.meta := fun p hp =>
    hheads _ (hsub.subset (List.mem_map_of_mem (List.mem_map_of_mem hp)))
  have hvisible : ∀ p ∈ ps, (k, v.meta) ∈ Index.visible p.bucket keyPrefix := by
    intro p hp
    obtain ⟨token, his⟩ := hps p hp
    exact (Index.mem_visible his.found).mpr ⟨hk, hfound p hp⟩
  refine ⟨?_, ?_, ?_⟩
  · rw [List.flatMap_map]
    exact contents_sorted hreading hps
  · intro hroll entry
    rw [List.flatMap_map, ← hentry]
    constructor
    · rintro ⟨hmem, rfl⟩
      obtain ⟨p, hp, hmem⟩ := List.mem_flatMap.mp hmem
      obtain ⟨token, his⟩ := hps p hp
      obtain ⟨k', m, rfl, rest, hrest, hhead, -⟩ := his.listed hmem
      cases (hfound p hp).symm.trans hhead
      rfl
    · rintro rfl
      have hall : ∀ p ∈ ps, ∃ m,
          Index.Listed p.exchange.store.index b keyPrefix delimiter k m := by
        intro p hp
        obtain ⟨token, his⟩ := hps p hp
        refine ⟨v.meta, (Index.mem_plainKeys his.found).mp ?_⟩
        exact List.mem_filter.mpr ⟨hvisible p hp, Option.isNone_iff_eq_none.mpr hroll⟩
      obtain ⟨p, hp, m, hhead, hmem⟩ := entry_read hreading hps hall
      cases (hfound p hp).symm.trans hhead
      exact ⟨List.mem_flatMap.mpr ⟨p, hp, hmem⟩, rfl⟩
  · intro cp hroll
    have hall : ∀ p ∈ ps, Index.Folder p.exchange.store.index b keyPrefix delimiter cp := by
      intro p hp
      obtain ⟨token, his⟩ := hps p hp
      exact (Index.mem_folders_visible his.found).mp
        (Index.mem_folders.mpr ⟨_, hvisible p hp, hroll⟩)
    obtain ⟨p, hp, hmem⟩ := folder_read hreading hps hall
    exact List.mem_flatMap.mpr ⟨_, List.mem_map_of_mem hp, hmem⟩

/-! A cat is put; an ant before a client reads its first page, and a bee after. -/

/-- The gateway after a request. -/
private def served (gw : Gateway) (req : HttpRequest) (env : Env) (x : Serving) : Serving :=
  let e : Exchange := ⟨req, env, x.store, x.world⟩
  ⟨(e.reply CeRs.plain gw).store, (e.reply CeRs.plain gw).world, x.log ++ [e]⟩

private theorem fire_request (gw : Gateway) (req : HttpRequest) (env : Env) (x : Serving) :
    fire CeRs.plain gw (.request req env) x = some (served gw req env x) := rfl

private def toZoo (method : Method) (path : Path) (query : List (String × String))
    (body : Bytes) : HttpRequest :=
  { method, path, headers := [], query := ExtTreeMap.ofList query, body }

private def putIn (key : String) (body : Bytes) : HttpRequest :=
  toZoo .put (.object "zoo" key) [] body

private def readIn (query : List (String × String)) : HttpRequest :=
  toZoo .get (.bucket "zoo") query []

private def zoo : Gateway := ⟨none, 1000⟩

private def withZoo : Serving :=
  start (.fresh 1)
    (World.blank.setFile .index (some (.index (Index.empty.makeBucket "zoo" 1).2)))

private def catPut : Serving :=
  served zoo (putIn "cat" [1, 2, 3]) (Env.calm CeRs.plain 5 "u") withZoo

private def antPut : Serving := served zoo (putIn "ant" [1]) (Env.calm CeRs.plain 6 "v") catPut

private def firstRead : Serving :=
  served zoo (readIn [("max-keys", "1")]) (Env.calm CeRs.plain 7 "w") antPut

private def beePut : Serving := served zoo (putIn "bee" [2]) (Env.calm CeRs.plain 8 "x") firstRead

private def zooBrowsed : Serving :=
  served zoo (readIn [("continuation-token", "ant")]) (Env.calm CeRs.plain 9 "y") beePut

/-- The page that a handle answers with, from a token on. -/
private def zooPage (x : Serving) (token : Option String) (maxKeys : Nat) : ListPage :=
  (x.store.index.list "zoo" "" none token maxKeys).toOption.getD ⟨[], [], none, false, 0, 0⟩

private theorem zooPage_eq {x : Serving} {token : Option String} {maxKeys : Nat}
    (h : (x.store.index.list "zoo" "" none token maxKeys).toBool = true) :
    x.store.index.list "zoo" "" none token maxKeys = .ok (zooPage x token maxKeys) := by
  unfold zooPage
  cases hlist : x.store.index.list "zoo" "" none token maxKeys with
  | error m =>
    rw [hlist] at h
    cases h
  | ok page => rfl

private def firstExchange : Exchange :=
  ⟨readIn [("max-keys", "1")], Env.calm CeRs.plain 7 "w", antPut.store, antPut.world⟩

private def secondExchange : Exchange :=
  ⟨readIn [("continuation-token", "ant")], Env.calm CeRs.plain 9 "y", beePut.store, beePut.world⟩

private def zooPages : List (Exchange × Listing) :=
  [(firstExchange, (zooPage antPut none 1).listing "zoo" "" none),
    (secondExchange, (zooPage beePut (some "ant") 1000).listing "zoo" "" none)]

set_option maxRecDepth 8000 in
private theorem zooPage_ok :
    (antPut.store.index.list "zoo" "" none none 1).toBool ∧
      (beePut.store.index.list "zoo" "" none (some "ant") 1000).toBool ∧
      (zooPage antPut none 1).nextContinuation = some "ant" ∧
      (zooPage antPut none 1).isTruncated = true ∧
      (zooPage beePut (some "ant") 1000).isTruncated = false := by
  decide +kernel

private theorem zooPages_browses : Browses CeRs.plain zoo "zoo" "" none none zooPages := by
  obtain ⟨hfirst, hsecond, hnext, hmore, hend⟩ := zooPage_ok
  have hreq₁ : firstExchange.req.Lists "zoo" "" none none := by
    refine ⟨rfl, rfl, ?_, ?_, ?_⟩ <;> decide
  have hreq₂ : secondExchange.req.Lists "zoo" "" none (some "ant") := by
    refine ⟨rfl, rfl, ?_, ?_, ?_⟩ <;> decide
  have hmax₁ : firstExchange.req.maxKeys = 1 := by decide
  have hmax₂ : secondExchange.req.maxKeys = 1000 := by decide
  refine .more hreq₁ ?_ hmore ?_
  · rw [(reply_lists hreq₁ rfl).1 _ (hmax₁ ▸ zooPage_eq hfirst)]
    exact listing_listBody _
  · show Browses _ _ _ _ _ (zooPage antPut none 1).nextContinuation _
    rw [hnext]
    refine .last hreq₂ ?_ hend
    rw [(reply_lists hreq₂ rfl).1 _ (hmax₂ ▸ zooPage_eq hsecond)]
    exact listing_listBody _

set_option maxRecDepth 8000 in
private theorem cat_found :
    (firstExchange.store.index.head "zoo" "cat").toBool ∧
      (secondExchange.store.index.head "zoo" "cat").toBool := by
  decide +kernel

theorem browsed_zoo : ((zooPages.flatMap fun p => p.2.contents).map (·.1)).Pairwise (· < ·) ∧
    ∃ p ∈ zooPages, ∃ m, p.1.store.index.head "zoo" "cat" = .ok m ∧
      m.entry "cat" ∈ p.2.contents := by
  obtain ⟨hsorted, -, hfound, -⟩ := browsed CeRs.plain zoo "zoo" "" none zooPages zooPages_browses
  refine ⟨hsorted, hfound "cat" ?_⟩
  have hlisted : ∀ {e : Exchange}, (e.store.index.head "zoo" "cat").toBool = true →
      ∃ m, Index.Listed e.store.index "zoo" "" none "cat" m := by
    intro e he
    cases hm : e.store.index.head "zoo" "cat" with
    | error m =>
      rw [hm] at he
      cases he
    | ok m =>
      refine ⟨m, "cat", by decide, hm, ?_⟩
      intro d hd
      cases hd
  intro p hp
  rcases List.mem_cons.mp hp with rfl | hp
  · exact hlisted cat_found.1
  · cases List.mem_singleton.mp hp
    exact hlisted cat_found.2

/-- A listing calls nothing that changes the store. -/
private theorem read_spares {query : List (String × String)} {env : Env} {x : Serving} :
    Sparing CeRs.plain zoo "zoo" "cat" x (.request (readIn query) env) := by
  intro e he
  unfold ServingEvent.makes at he
  obtain ⟨c, hc, -⟩ := Option.map_eq_some_iff.mp he
  have hnone : (readIn query).call zoo = none := rfl
  cases hnone.symm.trans (HttpRequest.call_of_makes hc)

private theorem put_spares {key : String} {byte : UInt8} {now : Nat} {id : String} {x : Serving}
    (hkey : key ≠ "cat") : Sparing CeRs.plain zoo "zoo" "cat" x
      (.request (putIn key [byte]) (Env.calm CeRs.plain now id)) := by
  intro e he
  unfold ServingEvent.makes at he
  obtain ⟨c, hc, rfl⟩ := Option.map_eq_some_iff.mp he
  obtain rfl : StoreCall.putObjectOpts "zoo" key [byte] _ = c :=
    Option.some.inj (HttpRequest.call_of_makes hc)
  refine ⟨calm_truthful _ _ _, ?_⟩
  intro h
  exact hkey h.2

private theorem zooBrowsed_reach :
    Reach (fire CeRs.plain zoo) (Sparing CeRs.plain zoo "zoo" "cat") catPut zooBrowsed := by
  refine .next (.next (.next (.next .start ?_ (fire_request ..)) ?_ (fire_request ..)) ?_
    (fire_request ..)) ?_ (fire_request ..)
  · exact put_spares (by decide)
  · exact read_spares
  · exact put_spares (by decide)
  · exact read_spares

private theorem zooBrowsed_log : zooBrowsed.log = catPut.log
      ++ [⟨putIn "ant" [1], Env.calm CeRs.plain 6 "v", catPut.store, catPut.world⟩]
      ++ [firstExchange]
      ++ [⟨putIn "bee" [2], Env.calm CeRs.plain 8 "x", firstRead.store, firstRead.world⟩]
      ++ [secondExchange] := rfl

set_option maxRecDepth 8000 in
private theorem catPut_status : (serve CeRs.plain zoo (putIn "cat" [1, 2, 3])
    (Env.calm CeRs.plain 5 "u") withZoo.store withZoo.world).response.status = 200 := by
  decide +kernel

theorem put_then_browsed_zoo :
    ("cat", 5, 3, CeRs.plain.objectCid [1, 2, 3]) ∈ zooPages.flatMap fun p => p.2.contents := by
  have hlog : (catPut.log ++ zooPages.map (·.1)).Sublist zooBrowsed.log := by
    rw [zooBrowsed_log]
    simp only [List.append_assoc, List.append_sublist_append_left]
    exact .cons _ (.cons_cons _ (.cons _ (.refl _)))
  have haddr : Addressed CeRs.plain withZoo.world := by
    intro cid b h
    cases h
  obtain ⟨-, hentry, -⟩ := put_then_browsed CeRs.plain CeRs.plain_lawful zoo withZoo haddr
    (putIn "cat" [1, 2, 3]) (Env.calm CeRs.plain 5 "u") (calm_truthful _ _ _) "zoo" "cat" rfl rfl
    catPut_status catPut zooBrowsed (fire_request ..) zooBrowsed_reach "" none zooPages
    zooPages_browses hlog rfl
  exact ((hentry rfl _).mpr rfl).1

end Serving

end CeStorage
