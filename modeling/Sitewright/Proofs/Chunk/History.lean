import Sitewright.Proofs.Chunk.Store

/-!
# Stores over a run of calls

Chunks are added to a store and removed from it. What a look-up finds, and the order in which the
chunks stand, can be told from the calls alone: a key holds the chunk of the last call under it, if
that call added one, and the keys stand in the order of the calls that brought them in, which are
those that added them first since they were removed last.
-/

namespace Sitewright.ChunkStore

inductive Call
  | add (chunk : Chunk)
  | remove (fileType : FileType) (name : String)

namespace Call

def key : Call → FileType × String
  | .add chunk => ChunkStore.key chunk
  | .remove fileType name => (fileType, name)

def chunk? : Call → Option Chunk
  | .add chunk => some chunk
  | .remove _ _ => none

end Call

variable {store : ChunkStore} {chunks : List Chunk} {calls : List Call} {c : Call} {chunk : Chunk}
  {fileType : FileType} {name : String} {k l : FileType × String} {m n : Nat}

def call (store : ChunkStore) : Call → ChunkStore
  | .add chunk => store.add chunk
  | .remove fileType name => store.remove fileType name

def afterCalls (store : ChunkStore) (calls : List Call) : ChunkStore := calls.foldl call store

theorem afterCalls_snoc (c : Call) :
    store.afterCalls (calls ++ [c]) = (store.afterCalls calls).call c := by
  rw [afterCalls, List.foldl_concat]
  rfl

theorem built_afterCalls (calls : List Call) : (afterCalls {} calls).Built := by
  induction calls using List.reverseRecOn with
  | nil => exact .empty
  | append_singleton calls c ih =>
    rw [afterCalls_snoc]
    cases c with
    | add chunk => exact ih.add chunk
    | remove fileType name => exact ih.remove fileType name

/-! ## One call -/

theorem filter_placeChunk :
    (placeChunk chunk chunks).filter (key · ≠ key chunk) = chunks.filter (key · ≠ key chunk) := by
  induction chunks with
  | nil => simp [placeChunk]
  | cons c rest ih =>
    rw [placeChunk]
    by_cases hc : c.isAt chunk.fileType chunk.name = true
    · have hkey : key c = key chunk := isAt_iff.1 hc
      simp [hc, hkey]
    · rw [if_neg hc, List.filter_cons, List.filter_cons, ih]

theorem eraseP_of_nodup (h : (chunks.map key).Nodup) :
    chunks.eraseP (·.isAt fileType name) = chunks.filter (key · ≠ (fileType, name)) := by
  induction chunks with
  | nil => rfl
  | cons c rest ih =>
    obtain ⟨hnew, hrest⟩ := List.nodup_cons.1 h
    by_cases hc : c.isAt fileType name = true
    · have hkey : key c = (fileType, name) := isAt_iff.1 hc
      have hothers : rest.filter (key · ≠ (fileType, name)) = rest := by
        refine List.filter_eq_self.2 fun d hd => decide_eq_true fun hdk => hnew ?_
        exact hkey.trans hdk.symm ▸ List.mem_map_of_mem hd
      rw [List.eraseP_cons, hc, cond_true, List.filter_cons_of_neg (by simp [hkey]), hothers]
    · have hkey : key c ≠ (fileType, name) := fun h => hc (isAt_iff.2 h)
      rw [List.eraseP_cons, eq_false_of_ne_true hc, cond_false,
        List.filter_cons, if_pos (decide_eq_true hkey), ih hrest]

/-- A call leaves the chunks under the other keys as they are, and in their order. -/
theorem filter_call (h : store.Built) (c : Call) :
    (store.call c).chunks.filter (key · ≠ c.key) = store.chunks.filter (key · ≠ c.key) := by
  cases c with
  | add chunk => exact filter_placeChunk
  | remove fileType name =>
    show (store.chunks.eraseP _).filter (key · ≠ (fileType, name)) = _
    rw [eraseP_of_nodup h.nodup_keys, List.filter_filter]
    simp only [Bool.and_self]
    rfl

theorem get?_call (h : store.Built) (c : Call) (fileType : FileType) (name : String) :
    (store.call c).get? fileType name =
      if c.key = (fileType, name) then c.chunk? else store.get? fileType name := by
  cases c with
  | add chunk =>
    show (store.add chunk).get? fileType name = _
    rw [get?_add]
    exact if_congr isAt_iff rfl rfl
  | remove removedType removed =>
    show (store.chunks.eraseP _).find? _ = _
    rw [eraseP_of_nodup h.nodup_keys]
    by_cases hk : (removedType, removed) = (fileType, name)
    · rw [show Call.key (.remove removedType removed) = (fileType, name) from hk, if_pos rfl, hk]
      refine List.find?_eq_none.2 fun d hd hat => ?_
      have hne : key d ≠ (fileType, name) := by simpa using List.of_mem_filter hd
      exact hne (isAt_iff.1 hat)
    · rw [if_neg (show Call.key (.remove removedType removed) ≠ (fileType, name) from hk),
        List.find?_filter]
      refine congrArg (List.find? · store.chunks) (funext fun d => ?_)
      by_cases hat : d.isAt fileType name = true
      · have hkey : key d ≠ (removedType, removed) := fun h => hk (h.symm.trans (isAt_iff.1 hat))
        simp [hat, hkey]
      · simp [hat]

/-- What the last call under a key left there. -/
def lastAdded? (calls : List Call) (k : FileType × String) : Option Chunk :=
  (calls.filter (·.key = k)).getLast?.bind Call.chunk?

theorem lastAdded?_snoc (c : Call) :
    lastAdded? (calls ++ [c]) k = if c.key = k then c.chunk? else lastAdded? calls k := by
  by_cases h : c.key = k
  · simp [lastAdded?, h]
  · simp [lastAdded?, h]

/-- A look-up finds the chunk that was added last under the key, if it was not removed since. -/
theorem get?_afterCalls (calls : List Call) (fileType : FileType) (name : String) :
    (afterCalls {} calls).get? fileType name = lastAdded? calls (fileType, name) := by
  induction calls using List.reverseRecOn with
  | nil => rfl
  | append_singleton calls c ih =>
    rw [afterCalls_snoc, get?_call (built_afterCalls calls), ih, lastAdded?_snoc]

theorem isSome_get?_iff : (store.get? fileType name).isSome = true ↔
    (fileType, name) ∈ store.chunks.map key := by
  rw [get?, List.find?_isSome]
  simp [isAt_iff]

/-! ## The order of the keys -/

/-- The call at a position brought its key in: no call since has removed the key, and each one
before it that added the key was followed by a removal. -/
structure EntersAt (calls : List Call) (k : FileType × String) (n : Nat) : Prop where
  adds : ∃ chunk, calls[n]? = some (.add chunk) ∧ key chunk = k
  kept : ∀ m, n < m → calls[m]? ≠ some (.remove k.1 k.2)
  isFirst : ∀ m < n, ∀ chunk, calls[m]? = some (.add chunk) → key chunk = k →
    ∃ l, m < l ∧ l < n ∧ calls[l]? = some (.remove k.1 k.2)

/-- One key was brought in before another. -/
def EntersBefore (calls : List Call) (k l : FileType × String) : Prop :=
  ∃ m n, m < n ∧ EntersAt calls k m ∧ EntersAt calls l n

theorem EntersAt.lt (h : EntersAt calls k n) : n < calls.length := by
  obtain ⟨chunk, hn, -⟩ := h.adds
  exact (List.getElem?_eq_some_iff.1 hn).1

theorem EntersAt.not_lt (hn : EntersAt calls k n) (hm : EntersAt calls k m) : ¬ n < m := by
  intro hlt
  obtain ⟨chunk, hadd, hkey⟩ := hn.adds
  obtain ⟨l, hl, -, hremoved⟩ := hm.isFirst n hlt chunk hadd hkey
  exact hn.kept l hl hremoved

theorem EntersAt.unique (hn : EntersAt calls k n) (hm : EntersAt calls k m) : n = m :=
  Nat.le_antisymm (Nat.le_of_not_lt (hm.not_lt hn)) (Nat.le_of_not_lt (hn.not_lt hm))

theorem EntersAt.snoc (h : EntersAt calls k n) (hc : c ≠ .remove k.1 k.2) :
    EntersAt (calls ++ [c]) k n := by
  obtain ⟨chunk, hadd, hkey⟩ := h.adds
  refine ⟨⟨chunk, ?_, hkey⟩, fun m hm hremoved => ?_, fun m hm chunk hadd hkey => ?_⟩
  · rwa [List.getElem?_append_left h.lt]
  · rcases Nat.lt_or_ge m calls.length with hlt | hge
    · rw [List.getElem?_append_left hlt] at hremoved
      exact h.kept m hm hremoved
    · rw [List.getElem?_append_right hge] at hremoved
      exact hc (List.mem_singleton.1 (List.mem_of_getElem? hremoved)).symm
  · rw [List.getElem?_append_left (Nat.lt_trans hm h.lt)] at hadd
    obtain ⟨l, hml, hln, hremoved⟩ := h.isFirst m hm chunk hadd hkey
    exact ⟨l, hml, hln, by rwa [List.getElem?_append_left (Nat.lt_trans hln h.lt)]⟩

theorem EntersBefore.snoc (h : EntersBefore calls k l) (hk : c ≠ .remove k.1 k.2)
    (hl : c ≠ .remove l.1 l.2) : EntersBefore (calls ++ [c]) k l := by
  obtain ⟨m, n, hlt, hm, hn⟩ := h
  exact ⟨m, n, hlt, hm.snoc hk, hn.snoc hl⟩

/-- A key that a store lacks was removed after each call that added it. -/
theorem exists_removed (h : lastAdded? calls k = none) (hadd : calls[m]? = some (.add chunk))
    (hkey : key chunk = k) : ∃ l, m < l ∧ l < calls.length ∧
      calls[l]? = some (.remove k.1 k.2) := by
  induction calls using List.reverseRecOn with
  | nil => cases hadd
  | append_singleton calls c ih =>
    rw [lastAdded?_snoc] at h
    have hlast : m < calls.length ∨ c = .add chunk := by
      rcases Nat.lt_or_ge m calls.length with hlt | hge
      · exact .inl hlt
      · rw [List.getElem?_append_right hge] at hadd
        exact .inr (List.mem_singleton.1 (List.mem_of_getElem? hadd)).symm
    by_cases hc : c.key = k
    · rw [if_pos hc] at h
      cases c with
      | add added => cases h
      | remove fileType name =>
        obtain hlt := hlast.resolve_right nofun
        subst hc
        exact ⟨calls.length, hlt, by simp, by simp [Call.key]⟩
    · rw [if_neg hc] at h
      have hlt := hlast.resolve_right fun heq => hc (heq ▸ hkey)
      rw [List.getElem?_append_left hlt] at hadd
      obtain ⟨l, hml, hl, hremoved⟩ := ih h hadd
      exact ⟨l, hml, by simp; omega, by rwa [List.getElem?_append_left hl]⟩

theorem entersAt_length (h : lastAdded? calls (key chunk) = none) :
    EntersAt (calls ++ [.add chunk]) (key chunk) calls.length := by
  refine ⟨⟨chunk, by simp, rfl⟩, fun m hm hremoved => ?_, fun m hm added hadd hkey => ?_⟩
  · have hlt := (List.getElem?_eq_some_iff.1 hremoved).1
    rw [List.length_append, List.length_singleton] at hlt
    omega
  · rw [List.getElem?_append_left hm] at hadd
    obtain ⟨l, hml, hl, hremoved⟩ := exists_removed h hadd hkey
    exact ⟨l, hml, hl, by rwa [List.getElem?_append_left hl]⟩

theorem exists_entersAt (h : lastAdded? calls k ≠ none) : ∃ n, EntersAt calls k n := by
  induction calls using List.reverseRecOn with
  | nil => exact absurd rfl h
  | append_singleton calls c ih =>
    rw [lastAdded?_snoc] at h
    by_cases hbefore : lastAdded? calls k = none
    · have hc : c.key = k := by_contra fun hc => h (by rw [if_neg hc, hbefore])
      subst hc
      cases c with
      | add chunk => exact ⟨calls.length, entersAt_length hbefore⟩
      | remove fileType name => simp [Call.key, Call.chunk?] at h
    · obtain ⟨n, hn⟩ := ih hbefore
      refine ⟨n, hn.snoc ?_⟩
      rintro rfl
      simp [Call.key, Call.chunk?] at h

theorem mem_keys_afterCalls_iff :
    k ∈ (afterCalls {} calls).chunks.map key ↔ lastAdded? calls k ≠ none := by
  rw [← Option.isSome_iff_ne_none, ← get?_afterCalls, isSome_get?_iff]

/-- The keys of a store stand in the order of the calls that brought them in. -/
theorem pairwise_entersBefore (calls : List Call) :
    ((afterCalls {} calls).chunks.map key).Pairwise (EntersBefore calls) := by
  induction calls using List.reverseRecOn with
  | nil => exact List.Pairwise.nil
  | append_singleton calls c ih =>
    rw [afterCalls_snoc]
    cases c with
    | add chunk =>
      have hbefore : ((afterCalls {} calls).chunks.map key).Pairwise
          (EntersBefore (calls ++ [.add chunk])) :=
        ih.imp fun h => h.snoc nofun nofun
      show ((placeChunk chunk _).map key).Pairwise _
      rw [map_key_placeChunk]
      by_cases hmem : key chunk ∈ (afterCalls {} calls).chunks.map key
      · rwa [if_pos hmem]
      · rw [if_neg hmem]
        have hnone := not_not.1 (mem_keys_afterCalls_iff.not.1 hmem)
        refine List.pairwise_append.2 ⟨hbefore, List.pairwise_singleton _ _, ?_⟩
        intro k hk l hl
        obtain rfl := List.mem_singleton.1 hl
        obtain ⟨n, hn⟩ := exists_entersAt (mem_keys_afterCalls_iff.1 hk)
        exact ⟨n, calls.length, hn.lt, hn.snoc nofun, entersAt_length hnone⟩
    | remove fileType name =>
      show ((List.eraseP _ _).map key).Pairwise _
      rw [eraseP_of_nodup (built_afterCalls calls).nodup_keys]
      have hkeys := (List.filter_map (f := key) (p := (· ≠ (fileType, name)))
        (l := (afterCalls {} calls).chunks)).symm
      refine hkeys ▸ (ih.filter _).imp_of_mem fun {k l} hk hl h => ?_
      have hkept : ∀ k ∈ (((afterCalls {} calls).chunks.map key).filter (· ≠ (fileType, name))),
          Call.remove fileType name ≠ .remove k.1 k.2 := by
        rintro k hk heq
        have hne : k ≠ (fileType, name) := by simpa using List.of_mem_filter hk
        exact hne (Prod.ext (Call.remove.inj heq).1.symm (Call.remove.inj heq).2.symm)
      exact h.snoc (hkept k hk) (hkept l hl)

/-- Over any run of calls, a store is a map from keys to the chunks added last, whose keys stand in
the order in which they came in: a chunk that replaces another keeps its place, and one that is
added again after a removal goes to the end. -/
theorem calls_keep_order (calls : List Call) :
    ((afterCalls {} calls).chunks.map key).Nodup ∧
    (∀ fileType name, (afterCalls {} calls).get? fileType name = lastAdded? calls (fileType, name) ∧
      (afterCalls {} calls).contains fileType name =
        (lastAdded? calls (fileType, name)).isSome ∧
      ∀ plugin, (afterCalls {} calls).require plugin fileType name =
        match lastAdded? calls (fileType, name) with
        | some chunk => .ok chunk
        | none => .error (.missingChunk plugin name fileType)) ∧
    (∀ k ∈ (afterCalls {} calls).chunks.map key, ∃! n, EntersAt calls k n) ∧
    ((afterCalls {} calls).chunks.map key).Pairwise (EntersBefore calls) ∧
    (∀ c : Call, (afterCalls {} (calls ++ [c])).chunks.filter (key · ≠ c.key) =
      (afterCalls {} calls).chunks.filter (key · ≠ c.key)) ∧
    ∀ chunks, ofList chunks = afterCalls {} (chunks.map .add) := by
  refine ⟨(built_afterCalls calls).nodup_keys, fun fileType name => ?_, fun k hk => ?_,
    pairwise_entersBefore calls, fun c => ?_, fun chunks => ?_⟩
  · have hget := get?_afterCalls calls fileType name
    refine ⟨hget, ?_, fun plugin => ?_⟩
    · rw [← hget, Bool.eq_iff_iff, contains, List.any_eq_true, get?, List.find?_isSome]
    · cases hlast : lastAdded? calls (fileType, name) with
      | some chunk => rw [require, hget, hlast]
      | none => rw [require, hget, hlast]
  · obtain ⟨n, hn⟩ := exists_entersAt (mem_keys_afterCalls_iff.1 hk)
    exact ⟨n, hn, fun m hm => hm.unique hn⟩
  · rw [afterCalls_snoc]
    exact filter_call (built_afterCalls calls) c
  · exact (List.foldl_map (f := Call.add) (g := call)).symm

def reAdded : List Call :=
  [.add (.ofText "a" .js "first"), .add (.ofText "b" .js "b"), .add (.ofText "a" .js "second"),
    .remove .js "a", .add (.ofText "c" .js "c"), .add (.ofText "a" .js "third")]

theorem calls_keep_order_reAdded :
    (afterCalls {} reAdded).chunks.map key = [(.js, "b"), (.js, "c"), (.js, "a")] ∧
    (∃! n, EntersAt reAdded (.js, "a") n) ∧ EntersBefore reAdded (.js, "c") (.js, "a") ∧
    (afterCalls {} reAdded).get? .js "a" = some (.ofText "a" .js "third") := by
  have hkeys : (afterCalls {} reAdded).chunks.map key = [(.js, "b"), (.js, "c"), (.js, "a")] := by
    decide +kernel
  obtain ⟨-, hget, henters, hbefore, -⟩ := calls_keep_order reAdded
  rw [hkeys] at henters hbefore
  refine ⟨hkeys, henters _ (by simp), ?_, (hget .js "a").1⟩
  simpa using hbefore.of_cons

end Sitewright.ChunkStore
