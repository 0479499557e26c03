import CeStorage.Gateway.ReadBack

/-!
# What a GET serves is what its ETag names

Every live version in the index file has a content (`ContentsInv`), and so has
every live version in the index that the gateway has in memory, although that
index may be older than the file, or hold edits that were never saved
(`ServedInv`). So the body of a full GET, of the current object or of a version,
is the content whose CID the `ETag` header gives.
-/

namespace CeStorage

open Lib
open Std (ExtTreeMap)

variable {ce : CeRs} {env : Env} {gw : Gateway} {s : Store} {w : World} {b k : String}

/-- Every live version that the handle has in memory has a content. -/
def Store.Backed (ce : CeRs) (w : World) (s : Store) : Prop :=
  ∀ m, s.index.Live m → ∃ bytes, ContentOf ce w m bytes

theorem Store.Backed.mono {w' : World} (h : s.Backed ce w) (hg : Grows w w') :
    s.Backed ce w' := by
  intro m hm
  obtain ⟨bytes, hc⟩ := h m hm
  exact ⟨bytes, hc.mono hg⟩

theorem saving_truthful (h : env.Truthful ce) : env.saving.Truthful ce :=
  ⟨h.putBlob, h.putObject⟩

/-- The handle of a call has contents for what it has in memory afterwards. -/
theorem exec_backed (hce : ce.Lawful) {l : Ledger} {c : StoreCall} (hI : ContentsInv ce l)
    (he : Honest ce l ⟨s, env, c⟩) (hs : s.Backed ce l.world) :
    (c.exec ce env s l.world).1.2.Backed ce (c.exec ce env s l.world).2 := by
  have hsaving : InMemory s (c.exec ce env s l.world) (c.exec ce env.saving s l.world) :=
    exec_saving c s l.world
  have hgrow : Grows l.world (c.exec ce env s l.world).2 :=
    (c.exec_blobs hce he.truthful hI.uploads.addressed).2
  rcases hsaving.cached with hsame | hfile
  · intro m hm
    rw [hsaving.handle, hsame] at hm
    exact hs.mono hgrow m hm
  · -- it is the index that the call would have saved
    have hhonest : Honest ce l ⟨s, env.saving, c⟩ := ⟨saving_truthful he.truthful, he.fresh⟩
    have hsaved : ContentsInv ce (l.after ce ⟨s, env.saving, c⟩) :=
      after_contentsInv hce hI hhonest
    intro m hm
    rw [hsaving.handle] at hm
    obtain ⟨bytes, hc⟩ := hsaved.version _ hfile m hm
    refine ⟨bytes, hc.mono ?_⟩
    intro cid blob hblob
    rw [hsaving.blobs]
    exact hblob

namespace Serving

/-- What holds of the gateway and of the ledger of its calls. -/
structure ServedInv (ce : CeRs) (y : Serving × Ledger) : Prop where
  world : y.1.world = y.2.world
  contents : ContentsInv ce y.2
  backed : y.1.store.Backed ce y.1.world

/-- The handle of the gateway after an event. -/
theorem fire_store {event : ServingEvent} {x x' : Serving} (h : fire ce gw event x = some x') :
    x'.store = x.store ∨
      ∃ e, event.makes ce gw x = some e ∧ e.handle = x.store ∧
        x'.store = (e.call.exec ce e.env e.handle x.world).1.2 := by
  cases event with
  | elsewhere self env c =>
    cases h
    exact .inl rfl
  | request req env =>
    have hserve := serve_makes ce gw req env x.store x.world
    have hs : x'.store = (serve ce gw req env x.store x.world).store := by
      cases h
      rfl
    rw [hs]
    unfold ServingEvent.makes
    dsimp only
    cases hc : req.makes ce gw env.now with
    | none =>
      rw [hc] at hserve
      exact .inl hserve.1
    | some c =>
      rw [hc] at hserve
      exact .inr ⟨⟨x.store, env, c⟩, rfl, rfl, hserve.1⟩

theorem fire_servedInv (hce : ce.Lawful) {event : ServingEvent} {y y' : Serving × Ledger}
    (hI : ServedInv ce y) (hok : Booked ce gw y event)
    (hf : withGhost (fire ce gw) (book ce gw) event y = some y') : ServedInv ce y' := by
  obtain ⟨hfire, hbook⟩ := withGhost_eq_some.mp hf
  have hworld := fire_world hfire
  unfold book at hbook
  cases hmakes : event.makes ce gw y.1 with
  | none =>
    rw [hmakes] at hworld hbook
    dsimp only at hworld hbook
    refine ⟨?_, hbook ▸ hI.contents, ?_⟩
    · rw [hworld, ← hbook]
      exact hI.world
    · rcases fire_store hfire with hs | ⟨e, he, -⟩
      · rw [hworld, hs]
        exact hI.backed
      · exact nomatch hmakes.symm.trans he
  | some e =>
    rw [hmakes] at hworld hbook
    dsimp only at hworld hbook
    have hhonest := hok e hmakes
    have hbacked := hI.backed
    rw [hI.world] at hworld hbacked
    refine ⟨?_, ?_, ?_⟩
    · rw [hworld, ← hbook]
      rfl
    · rw [← hbook]
      exact after_contentsInv hce hI.contents hhonest
    · rw [hworld]
      rcases fire_store hfire with hs | ⟨e', he, hhandle, hs⟩
      · rw [hs]
        exact hbacked.mono
          (e.call.exec_blobs hce hhonest.truthful hI.contents.uploads.addressed).2
      · obtain rfl : e = e' := Option.some.inj (hmakes.symm.trans he)
        rw [hs, hI.world]
        exact exec_backed hce hI.contents hhonest (hhandle ▸ hbacked)

theorem reach_servedInv (hce : ce.Lawful) {s₀ : Store} {w₀ : World} (hw : Addressed ce w₀)
    (hu : w₀.NoUploads) (hv : w₀.NoVersions) (hs : ∀ m, ¬s₀.index.Live m) {y : Serving × Ledger}
    (hy : Reach (withGhost (fire ce gw) (book ce gw)) (Booked ce gw)
      (start s₀ w₀, Ledger.start w₀) y) : ServedInv ce y := by
  have hstart : ServedInv ce (start s₀ w₀, Ledger.start w₀) :=
    ⟨rfl, start_contentsInv hw hu hv, fun m hm => absurd hm (hs m)⟩
  exact hy.inv hstart fun z event z' _ hI hok hf => fire_servedInv hce hI hok hf

end Serving

/-! ## Full GETs -/

theorem Index.live_headVersion {i : Index} {id : String} {m : ObjectMeta}
    (h : i.headVersion b k id = .ok m) : i.Live m ∧ m.versionId = id := by
  unfold Index.headVersion at h
  cases hentry : i.entry b k with
  | error e =>
    rw [hentry] at h
    exact nomatch h
  | ok entry =>
    rw [hentry] at h
    dsimp only at h
    cases hv : entry.byVersion id with
    | none =>
      rw [hv] at h
      exact nomatch h
    | some v =>
      rw [hv] at h
      dsimp only at h
      split at h
      · exact nomatch h
      next hmarker =>
        cases h
        have hfind : entry.versions.reverse.find? (fun v => v.meta.versionId == id) = some v := hv
        have hmem := List.mem_of_find?_eq_some hfind
        have hkey := List.find?_some hfind
        refine ⟨⟨b, k, entry, v, ?_, List.mem_reverse.mp hmem, by simpa using hmarker, rfl⟩,
          eq_of_beq hkey⟩
        unfold Index.entry at hentry
        unfold Index.history Index.bucket at *
        grind

/-- The version that a read selects is live, and is the one it names. -/
theorem Store.live_metaFor {v : Option String} {m : ObjectMeta} (h : s.metaFor b k v = .ok m) :
    s.index.Live m ∧ ∀ id, v = some id → m.versionId = id := by
  unfold metaFor at h
  have hm := mapError_eq_ok.mp h
  cases v with
  | none => exact ⟨Index.live_head hm, nofun⟩
  | some id =>
    obtain ⟨hlive, hid⟩ := Index.live_headVersion hm
    exact ⟨hlive, fun id' h' => hid.trans (Option.some.inj h')⟩

theorem getObjectOpts_ok {v : Option String} {p : Preconditions} {res : GetResult}
    (h : (exec ce env (Store.getObjectOpts b k v p) s w).1.1 = .ok res) :
    ∃ m bytes, s.metaFor b k v = .ok m ∧ env.getObject m.cid = .ok bytes ∧
      res = Store.resultFrom m bytes none := by
  unfold Store.getObjectOpts at h
  rw [exec_bind_ok exec_self, exec_bind_lift] at h
  cases hm : s.metaFor b k v with
  | error e =>
    rw [hm] at h
    exact nomatch h
  | ok m =>
    rw [hm] at h
    dsimp only at h
    rw [exec_bind_lift] at h
    cases hcheck : p.checkRead m.etag m.lastModified with
    | error e =>
      rw [hcheck] at h
      exact nomatch h
    | ok u =>
      rw [hcheck] at h
      unfold Act.blob at h
      rw [exec_bind, exec_bind_ok (exec_call _), exec_lift] at h
      dsimp only [perform] at h
      cases hget : env.getObject m.cid with
      | error e =>
        rw [hget] at h
        exact nomatch h
      | ok bytes =>
        rw [hget] at h
        exact ⟨m, bytes, rfl, hget, (Except.ok.inj h).symm⟩

/-- A full GET that is answered with 200 gives a version and the bytes fetched for it. -/
theorem get_served {get : HttpRequest} (hpath : get.path = .object b k)
    (hmethod : get.method = .get) (hrange : get.headerStr "range" = none)
    (hok : (serve ce gw get env s w).response.status = 200) :
    ∃ m bytes, s.metaFor b k get.query["versionId"]? = .ok m ∧ env.getObject m.cid = .ok bytes ∧
      (serve ce gw get env s w).response
        = Gateway.getResponse (Store.resultFrom m bytes none) := by
  have hroute : Gateway.route ce gw get = Gateway.getObject ce b k get := by
    unfold Gateway.route
    rw [hpath, hmethod]
  unfold serve at hok ⊢
  rw [hroute] at hok ⊢
  unfold Gateway.getObject at hok ⊢
  rw [hrange] at hok ⊢
  cases hauth : gw.authorize get env.now ⟨abilityRead, b, k⟩ with
  | error r =>
    unfold Gate.run at hok
    rw [hauth] at hok
    exact absurd (hok.symm.trans (authorize_error hauth)) (by decide)
  | ok u =>
    rw [(Gate.run_check hauth).1] at hok ⊢
    unfold Gate.run at hok ⊢
    dsimp only at hok ⊢
    cases hr : (exec ce env (Store.getObjectOpts b k get.query["versionId"]?
        (extractPreconditions get)) s w).1.1 with
    | error e =>
      rw [hr] at hok
      exact absurd hok storageErr_status
    | ok res =>
      obtain ⟨m, bytes, hm, hget, rfl⟩ := getObjectOpts_ok hr
      exact ⟨m, bytes, hm, hget, rfl⟩

theorem getResponse_etag (m : ObjectMeta) (bytes : Bytes) (h : toStr m.etag = some m.etag) :
    (Gateway.getResponse (Store.resultFrom m bytes none)).headers["etag"]?
      = some s!"\"{m.etag}\"" := by
  rw [getResponse_full]
  unfold systemHeaders Store.resultFrom
  dsimp only
  rw [insertMetadata_other _ _ (by decide)]
  simp (disch := decide) only [insertOpt_other, insertStr_other]
  rw [insertStr_text (quoted_text (toStr_eq_some h).2), get_insert_self]

/-- **What a GET serves is what its ETag names.** In every state of every run of the
gateway from an empty store, whatever other processes do to its files, a full GET
that is answered with 200 serves the bytes whose CID its `ETag` gives; and if it
asks for a version, that CID is the version it asks for. -/
theorem get_integrity (ce : CeRs) (hce : ce.Lawful) (gw : Gateway) (s₀ : Store)
    (hs : ∀ m, ¬s₀.index.Live m) (w₀ : World) (hw : Addressed ce w₀) (hu : w₀.NoUploads)
    (hv : w₀.NoVersions) (y : Serving × Ledger)
    (hy : Reach (withGhost (Serving.fire ce gw) (Serving.book ce gw)) (Serving.Booked ce gw)
      (Serving.start s₀ w₀, Ledger.start w₀) y) (get : HttpRequest) (env : Env) (b k : String)
    (hpath : get.path = .object b k) (hmethod : get.method = .get)
    (hrange : get.headerStr "range" = none)
    (hserves : ∀ cid bytes, env.getObject cid = .ok bytes →
      ce.readObject y.1.world cid = some bytes)
    (hok : (serve ce gw get env y.1.store y.1.world).response.status = 200) :
    ∃ bytes, (serve ce gw get env y.1.store y.1.world).response.body = .bytes bytes ∧
      (toStr (ce.objectCid bytes) = some (ce.objectCid bytes) →
        (serve ce gw get env y.1.store y.1.world).response.headers["etag"]?
          = some s!"\"{ce.objectCid bytes}\"") ∧
      ∀ id, get.query["versionId"]? = some id → id = ce.objectCid bytes := by
  have hI := Serving.reach_servedInv hce hw hu hv hs hy
  obtain ⟨m, bytes, hm, hget, hresp⟩ := get_served hpath hmethod hrange hok
  obtain ⟨hlive, hid⟩ := Store.live_metaFor hm
  obtain ⟨full, hc⟩ := hI.backed m hlive
  obtain rfl : full = bytes :=
    Option.some.inj ((hc.read hce).symm.trans (hserves _ _ hget))
  have hcid : m.etag = ce.objectCid full := hc.etag.trans hc.cid
  rw [hresp]
  refine ⟨full, rfl, ?_, ?_⟩
  · intro htext
    rw [← hcid] at htext ⊢
    exact getResponse_etag m full htext
  · intro id hquery
    rw [← hid id hquery, hc.versionId, hc.cid]

/-! A bucket and an object are put through the gateway. -/

private def makeAlbum : ServingEvent :=
  .request ⟨.put, .bucket "album", [], ∅, []⟩ (Env.calm CeRs.plain 4 "t")

private def putTune : ServingEvent :=
  .request ⟨.put, .object "album" "tune", [], ∅, [7, 8, 9]⟩ (Env.calm CeRs.plain 5 "u")

private def jukebox : Gateway := ⟨none, 1000⟩

private def silence : Serving × Ledger := (Serving.start (.fresh 1) .blank, Ledger.start .blank)

private def tuned : Serving × Ledger :=
  (play (withGhost (Serving.fire CeRs.plain jukebox) (Serving.book CeRs.plain jukebox))
    [makeAlbum, putTune] silence).getD silence

private theorem tuned_reach :
    Reach (withGhost (Serving.fire CeRs.plain jukebox) (Serving.book CeRs.plain jukebox))
      (Serving.Booked CeRs.plain jukebox) silence tuned := by
  refine reach_along_getD ⟨?_, fun y hy => ⟨?_, fun _ _ => trivial⟩⟩ rfl
  · intro e he
    unfold makeAlbum ServingEvent.makes at he
    obtain ⟨c, hc, rfl⟩ := Option.map_eq_some_iff.mp he
    obtain rfl : StoreCall.makeBucket "album" = c :=
      Option.some.inj (HttpRequest.call_of_makes hc)
    exact ⟨calm_truthful _ _ _, nofun⟩
  · intro e he
    unfold putTune ServingEvent.makes at he
    obtain ⟨c, hc, rfl⟩ := Option.map_eq_some_iff.mp he
    obtain rfl : StoreCall.putObjectOpts "album" "tune" [7, 8, 9] _ = c :=
      Option.some.inj (HttpRequest.call_of_makes hc)
    exact ⟨calm_truthful _ _ _, nofun⟩

/-- An environment that fetches from the blobs of a world. -/
private def fetching (w : World) : Env :=
  { Env.calm CeRs.plain 6 "v" with
    getObject := fun cid => match CeRs.plain.readObject w cid with
      | some bytes => .ok bytes
      | none => .error "not found" }

private def getTune : HttpRequest := ⟨.get, .object "album" "tune", [], ∅, []⟩

theorem get_integrity_tune : ∃ bytes,
    (serve CeRs.plain jukebox getTune (fetching tuned.1.world) tuned.1.store
      tuned.1.world).response.body = .bytes bytes := by
  obtain ⟨bytes, hbody, -⟩ := get_integrity CeRs.plain CeRs.plain_lawful jukebox (.fresh 1)
    (by rintro m ⟨b, k, entry, v, hh, -⟩; exact nomatch hh) .blank (fun _ _ h => nomatch h)
    blank_noUploads blank_noVersions tuned tuned_reach getTune (fetching tuned.1.world) "album"
    "tune" rfl rfl rfl
    (by
      intro cid bytes h
      unfold fetching at h
      dsimp only at h
      split at h
      next hread => exact hread.trans (congrArg some (Except.ok.inj h))
      next => exact nomatch h)
    (by decide +kernel)
  exact ⟨bytes, hbody⟩

end CeStorage
