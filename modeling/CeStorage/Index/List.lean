import CeStorage.Index.Basic

/-!
# Listing a bucket (`Index::list`)

`ListObjectsV2`: the live keys with a prefix, in order, rolled up at a delimiter
and cut off after `maxKeys` entries. `BTreeMap::range(lower..)` is the part of
the sorted bindings from `lower` on; the loop over it stops at the first key
outside the prefix, or when the page is full and a further entry would go on it.
-/

namespace CeStorage

open Lib

/-- The loop state of `list`: the page so far. -/
structure ListState where
  keys : List (String × ObjectMeta)
  commonPrefixes : List String
  lastSeen : Option String
  truncated : Bool

namespace ListState

/-- The entries on the page so far. -/
def emitted (st : ListState) : Nat := st.keys.length + st.commonPrefixes.length

end ListState

namespace Index

/-- The folder a key rolls up into: what precedes the delimiter's first
occurrence after the prefix, and the delimiter. -/
def rollup (keyPrefix : String) (delimiter : Option String) (key : String) : Option String :=
  match delimiter with
  | none => none
  | some delim =>
    (Str.findSub delim.toList (key.toList.drop keyPrefix.toList.length)).map fun p =>
      keyPrefix ++ String.ofList p.1 ++ delim

/-- The loop of `list` over the bindings still to visit. -/
def listLoop (keyPrefix : String) (delimiter : Option String) (maxKeys : Nat) :
    List (String × ObjectEntry) → ListState → ListState
  | [], st => st
  | (k, entry) :: rest, st =>
    if !Str.startsWith k keyPrefix then st
    else
      match entry.current with
      | none => listLoop keyPrefix delimiter maxKeys rest st
      | some v =>
        if v.isDeleteMarker then listLoop keyPrefix delimiter maxKeys rest st
        else
          match rollup keyPrefix delimiter k with
          | some cp =>
            if st.commonPrefixes.contains cp then
              listLoop keyPrefix delimiter maxKeys rest { st with lastSeen := some k }
            else if maxKeys ≤ st.emitted then { st with truncated := true }
            else listLoop keyPrefix delimiter maxKeys rest
              { st with commonPrefixes := st.commonPrefixes ++ [cp], lastSeen := some k }
          | none =>
            if maxKeys ≤ st.emitted then { st with truncated := true }
            else listLoop keyPrefix delimiter maxKeys rest
              { st with keys := st.keys ++ [(k, v.meta)], lastSeen := some k }

/-- The first key a listing may return. -/
def listLower (keyPrefix : String) (startAfter : Option String) : String :=
  match startAfter with
  | some after => if keyPrefix ≤ after then after ++ "\x00" else keyPrefix
  | none => keyPrefix

/-- A page of the live keys of a bucket. -/
def list (self : Index) (name keyPrefix : String) (delimiter startAfter : Option String)
    (maxKeys : Nat) : Except String ListPage :=
  (self.bucket name).map fun b =>
    let maxKeys := max maxKeys 1
    let lower := listLower keyPrefix startAfter
    let st := listLoop keyPrefix delimiter maxKeys
      (b.objects.toList.filter fun p => lower ≤ p.1) ⟨[], [], none, false⟩
    { keys := st.keys, commonPrefixes := st.commonPrefixes
      nextContinuation := if st.truncated then st.lastSeen else none
      isTruncated := st.truncated, keyCount := st.emitted, maxKeys }

end Index

end CeStorage
