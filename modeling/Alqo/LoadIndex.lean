import Alqo.DiskIndex

/-!
# Loading the block index (txdb.cpp, main.cpp)

The database hands the records out in any order. The rest of `LoadBlockIndexDB` (candidate set,
block files) does not touch the fields looked at here.
-/

namespace Alqo
open Lib.BranchSum List AList

section
variable (Hash : Bytes → uint256) (params : CChainParams) (m : BlockMap) (index : CBlockIndex)

/-- The records of a map, as `WriteBlockIndex` stores them. -/
def diskRecords (entries : List (Sigma fun _ : uint256 => CBlockIndex)) :
    List DiskRecord :=
  entries.map fun e => (CDiskBlockIndex.ofIndex e.2).serialize params

def CDiskBlockIndex.getBlockHash (d : CDiskBlockIndex) : uint256 :=
  CBlockHeader.getHash Hash {
    nVersion := d.nVersion
    hashPrevBlock := d.hashPrev
    hashMerkleRoot := d.hashMerkleRoot
    nTime := d.nTime
    nBits := d.nBits
    nNonce := d.nNonce }

/- As an effect on the map. -/
def insertBlockIndex (hash : uint256) : BlockMap :=
  if hash = 0 then m else if hash ∈ m then m else m.insert hash {}

/-- The fields `LoadBlockIndexGuts` copies. -/
def CBlockIndex.loadFrom (d : CDiskBlockIndex) :
    CBlockIndex :=
  { index with
    pprev := if d.hashPrev = 0 then none else some d.hashPrev
    nHeight := d.nHeight
    nFile := d.nFile
    nDataPos := d.nDataPos
    nUndoPos := d.nUndoPos
    nVersion := d.nVersion
    hashMerkleRoot := d.hashMerkleRoot
    nTime := d.nTime
    nBits := d.nBits
    nNonce := d.nNonce
    nStatus := d.nStatus
    nTx := d.nTx
    nMint := d.nMint
    nMoneySupply := d.nMoneySupply
    fProofOfStake := d.fProofOfStake
    fStakeEntropy := d.fStakeEntropy
    fStakeModifier := d.fStakeModifier
    nStakeModifier :=
      if !params.isStakeModifierV2 d.nHeight then d.nStakeModifier else index.nStakeModifier
    nStakeModifierV2 :=
      if !params.isStakeModifierV2 d.nHeight then index.nStakeModifierV2 else d.nStakeModifierV2
    prevoutStake := d.prevoutStake
    nStakeTime := d.nStakeTime
    hashProofOfStake := d.hashProofOfStake }

/-- One turn of the loop of `LoadBlockIndexGuts`; `none` is a
`false` return. A null hash would be followed by a null dereference. -/
def loadRecord (r : DiskRecord) :
    Option BlockMap :=
  match CDiskBlockIndex.deserialize params r with
  | none => none
  | some d =>
    let hash := d.getBlockHash Hash
    if hash = 0 then none
    else
      let m' := insertBlockIndex (insertBlockIndex (insertBlockIndex m hash) d.hashPrev) d.hashNext
      let index := ((m'.lookup hash).getD {}).loadFrom params d
      if decide (index.nHeight ≤ params.nLastPOWBlock) && !checkProofOfWork params hash index.nBits
      then none
      else some (m'.insert hash index)

def loadBlockIndexGuts (Hash : Bytes → uint256) (params : CChainParams) :
    BlockMap → List DiskRecord → Option BlockMap
  | m, [] => some m
  | m, r :: rs =>
    match loadRecord Hash params m r with
    | none => none
    | some m' => loadBlockIndexGuts Hash params m' rs

def heightOf (hash : uint256) : Nat :=
  ((m.lookup hash).map fun index => index.nHeight).getD 0

/-- `vSortedByHeight`; ties, which the source breaks by address, stay in map order. -/
def sortedByHeight : List uint256 :=
  m.keys.insertionSort fun a b => heightOf m a ≤ heightOf m b

/-- The loop of `LoadBlockIndexDB`. -/
def computeChainWork : List uint256 → BlockMap → BlockMap
  | [], m => m
  | hash :: rest, m =>
    match m.lookup hash with
    | none => computeChainWork rest m
    | some index =>
      computeChainWork rest
        (m.insert hash { index with nChainWork := parentWork m index + index.getBlockProof })

def loadBlockIndexDB (records : List DiskRecord) :
    Option BlockMap :=
  (loadBlockIndexGuts Hash params ∅ records).map fun m => computeChainWork (sortedByHeight m) m

def CBlockIndex.reload : CBlockIndex :=
  CBlockIndex.loadFrom params {} ((CDiskBlockIndex.ofIndex index).restored params)

def Loadable (hash : uint256) (index : CBlockIndex) : Prop :=
  index.nHeight ≤ params.nLastPOWBlock → checkProofOfWork params hash index.nBits = true

instance (params : CChainParams) (hash : uint256) (index : CBlockIndex) :
    Decidable (Loadable params hash index) := inferInstanceAs (Decidable (_ → _))

theorem lookup_insertBlockIndex (hash x : uint256) : (insertBlockIndex m hash).lookup x =
      if x = hash ∧ hash ≠ 0 ∧ m.lookup x = none then some {} else m.lookup x := by
  unfold insertBlockIndex
  by_cases h0 : hash = 0
  · simp [h0]
  · by_cases hm : hash ∈ m
    · have hne : x = hash → m.lookup x ≠ none := by
        rintro rfl
        rw [Ne, lookup_eq_none]
        exact fun h => h hm
      simp only [h0, hm, if_false, if_true]
      rw [if_neg]
      rintro ⟨hx, -, hnone⟩
      exact hne hx hnone
    · simp only [h0, hm, if_false]
      by_cases hx : x = hash
      · subst hx
        rw [lookup_insert, if_pos ⟨rfl, h0, lookup_eq_none.mpr hm⟩]
      · rw [lookup_insert_ne hx, if_neg (fun h => hx h.1)]

theorem getBlockHash_restored :
    ((CDiskBlockIndex.ofIndex index).restored params).getBlockHash Hash =
      index.getBlockHeader.getHash Hash := rfl

theorem loadRecord_spec (m m₀ : BlockMap) (hash : uint256) (index : CBlockIndex)
    (hlink : EntryLinked Hash m₀ hash index)
    (hfree : m.lookup hash = none ∨ m.lookup hash = some {}) :
    loadRecord Hash params m ((CDiskBlockIndex.ofIndex index).serialize params) =
      if Loadable params hash index then
        some ((insertBlockIndex (insertBlockIndex m hash) (index.pprev.getD 0)).insert hash
          (index.reload params))
      else none := by
  have hd := CDiskBlockIndex.deserialize_serialize params (CDiskBlockIndex.ofIndex index)
  have hnz := hlink.nonzero
  obtain rfl := hlink.key
  unfold loadRecord
  rw [hd]
  simp only [getBlockHash_restored, hnz, if_false]
  have hnext : ∀ m' : BlockMap, insertBlockIndex m'
      ((CDiskBlockIndex.ofIndex index).restored params).hashNext = m' := fun m' => rfl
  rw [hnext]
  have hprev : ((CDiskBlockIndex.ofIndex index).restored params).hashPrev =
      index.pprev.getD 0 := rfl
  rw [hprev]
  have hempty : ((insertBlockIndex (insertBlockIndex m (index.getBlockHeader.getHash Hash))
      (index.pprev.getD 0)).lookup (index.getBlockHeader.getHash Hash)).getD {} =
        ({} : CBlockIndex) := by
    have h1 : (insertBlockIndex m (index.getBlockHeader.getHash Hash)).lookup
        (index.getBlockHeader.getHash Hash) = some {} := by
      rw [lookup_insertBlockIndex]
      rcases hfree with h | h
      · rw [if_pos ⟨rfl, hnz, h⟩]
      · rw [if_neg (fun hc => by simp [h] at hc), h]
    rw [lookup_insertBlockIndex, h1, if_neg (fun hc => by simp at hc)]
    rfl
  rw [hempty]
  have hcheck : (decide ((CBlockIndex.loadFrom params {}
        ((CDiskBlockIndex.ofIndex index).restored params)).nHeight ≤ params.nLastPOWBlock) &&
      !checkProofOfWork params (index.getBlockHeader.getHash Hash) (CBlockIndex.loadFrom params {}
        ((CDiskBlockIndex.ofIndex index).restored params)).nBits) = true ↔
      ¬ Loadable params (index.getBlockHeader.getHash Hash) index := by
    rw [Bool.and_eq_true, decide_eq_true_iff, Bool.not_eq_true', Loadable]
    rw [Classical.not_imp, Bool.not_eq_true]
    rfl
  by_cases hload : Loadable params (index.getBlockHeader.getHash Hash) index
  · rw [if_pos hload]
    exact if_neg fun h => hcheck.mp h hload
  · rw [if_neg hload]
    exact if_pos (hcheck.mpr hload)

theorem lookup_after_record (hash : uint256) (index : CBlockIndex) (x : uint256) (hx : x ≠ hash) :
    ((insertBlockIndex (insertBlockIndex m hash) (index.pprev.getD 0)).insert hash
        (index.reload params)).lookup x =
      if x = index.pprev.getD 0 ∧ index.pprev.getD 0 ≠ 0 ∧ m.lookup x = none then some {}
      else m.lookup x := by
  have hfirst : (insertBlockIndex m hash).lookup x = m.lookup x := by
    rw [lookup_insertBlockIndex, if_neg (fun h => hx h.1)]
  rw [lookup_insert_ne hx, lookup_insertBlockIndex, hfirst]

/-- The loop, by induction on the records left. Keys still to come are missing
or empty; a key that has been filled, or is no one's parent, is left alone. -/
theorem loadBlockIndexGuts_spec (m₀ : BlockMap) (l : List (Sigma fun _ : uint256 => CBlockIndex))
    (m : BlockMap) (hlink : ∀ hash index, ⟨hash, index⟩ ∈ l → EntryLinked Hash m₀ hash index)
    (hnd : l.NodupKeys)
    (hfree : ∀ hash index, ⟨hash, index⟩ ∈ l → m.lookup hash = none ∨ m.lookup hash = some {}) :
    ((∀ hash index, ⟨hash, index⟩ ∈ l → Loadable params hash index) →
      ∃ m', loadBlockIndexGuts Hash params m (diskRecords params l) = some m' ∧
        (∀ hash index, ⟨hash, index⟩ ∈ l → m'.lookup hash = some (index.reload params)) ∧
        ∀ x, x ∉ l.keys → (m.lookup x ≠ none ∨ ∀ e ∈ l, e.2.pprev ≠ some x) →
          m'.lookup x = m.lookup x) ∧
    (∀ m', loadBlockIndexGuts Hash params m (diskRecords params l) = some m' →
      ∀ hash index, ⟨hash, index⟩ ∈ l → Loadable params hash index) := by
  induction l generalizing m with
  | nil => exact ⟨fun _ => ⟨m, rfl, by simp, fun _ _ _ => rfl⟩, by simp⟩
  | cons head rest ih =>
    obtain ⟨hash, index⟩ := head
    obtain ⟨hfst, hrest⟩ := nodupKeys_cons.mp hnd
    have hspec := loadRecord_spec Hash params m m₀ hash index
      (hlink hash index mem_cons_self) (hfree hash index mem_cons_self)
    have hrecs : diskRecords params (⟨hash, index⟩ :: rest) =
        (CDiskBlockIndex.ofIndex index).serialize params :: diskRecords params rest := rfl
    rw [hrecs]
    simp only [loadBlockIndexGuts, hspec]
    by_cases hload : Loadable params hash index
    · rw [if_pos hload]
      have hne : ∀ x i, (⟨x, i⟩ : Sigma fun _ : uint256 => CBlockIndex) ∈ rest → x ≠ hash := by
        rintro x i hx rfl
        exact hfst (mem_keys.mpr ⟨i, hx⟩)
      have hfree' : ∀ x i, (⟨x, i⟩ : Sigma fun _ : uint256 => CBlockIndex) ∈ rest →
          ((insertBlockIndex (insertBlockIndex m hash) (index.pprev.getD 0)).insert hash
              (index.reload params)).lookup x = none ∨
            ((insertBlockIndex (insertBlockIndex m hash) (index.pprev.getD 0)).insert hash
              (index.reload params)).lookup x = some {} := by
        intro x i hx
        rw [lookup_after_record params m hash index x (hne x i hx)]
        split_ifs
        · exact .inr rfl
        · exact hfree x i (mem_cons_of_mem _ hx)
      obtain ⟨hok, hinv⟩ := ih _ (fun x i hx => hlink x i (mem_cons_of_mem _ hx)) hrest hfree'
      constructor
      · intro hall
        obtain ⟨m', hm', hval, hframe⟩ := hok fun x i hx => hall x i (mem_cons_of_mem _ hx)
        refine ⟨m', hm', ?_, ?_⟩
        · intro x i hx
          rcases mem_cons.mp hx with heq | hx
          · cases heq
            rw [hframe hash hfst (.inl (by rw [lookup_insert]; simp)), lookup_insert]
          · exact hval x i hx
        · intro x hx hcase
          simp only [keys_cons, mem_cons, not_or] at hx
          have hstep := lookup_after_record params m hash index x hx.1
          -- the parent's placeholder is not made for a key that is there or has no child
          have hkeep : ((insertBlockIndex (insertBlockIndex m hash) (index.pprev.getD 0)).insert hash
              (index.reload params)).lookup x = m.lookup x := by
            rw [hstep, if_neg]
            rintro ⟨hxp, hp0, hnone⟩
            rcases hcase with h | h
            · exact h hnone
            · apply h ⟨hash, index⟩ mem_cons_self
              cases hp : index.pprev with
              | none => simp [hp] at hp0
              | some p => simp [hxp, hp]
          rw [hframe x hx.2, hkeep]
          rw [hkeep]
          rcases hcase with h | h
          · exact .inl h
          · exact .inr fun e he => h e (mem_cons_of_mem _ he)
      · intro m' hm' x i hx
        rcases mem_cons.mp hx with heq | hx
        · cases heq
          exact hload
        · exact hinv m' hm' x i hx
    · rw [if_neg hload]
      refine ⟨fun hall => absurd (hall hash index mem_cons_self) hload, fun m' hm' => ?_⟩
      cases hm'

theorem loadBlockIndexGuts_lookup (hm : TreeLinked Hash m)
    (l : List (Sigma fun _ : uint256 => CBlockIndex)) (hl : l.Perm m.entries) :
    ((∀ hash index, m.lookup hash = some index → Loadable params hash index) ↔
      ∃ m', loadBlockIndexGuts Hash params ∅ (diskRecords params l) = some m') ∧
    ∀ m', loadBlockIndexGuts Hash params ∅ (diskRecords params l) = some m' →
      ∀ x, m'.lookup x = (m.lookup x).map fun index => index.reload params := by
  have hmem : ∀ hash index, ⟨hash, index⟩ ∈ l ↔ m.lookup hash = some index := by
    intro hash index
    rw [hl.mem_iff]
    exact mem_lookup_iff.symm
  obtain ⟨hok, hinv⟩ := loadBlockIndexGuts_spec Hash params m l ∅
    (fun hash index h => hm hash index ((hmem hash index).mp h))
    ((perm_nodupKeys hl).mpr m.nodupKeys)
    (fun _ _ _ => .inl (lookup_empty _))
  refine ⟨⟨fun h => ?_, fun ⟨m', hm'⟩ hash index h => ?_⟩, fun m' hm' x => ?_⟩
  · obtain ⟨m', hm', -⟩ := hok fun hash index hin => h hash index ((hmem hash index).mp hin)
    exact ⟨m', hm'⟩
  · exact hinv m' hm' hash index ((hmem hash index).mpr h)
  · obtain ⟨m'', hm'', hval, hframe⟩ := hok (hinv m' hm')
    obtain rfl : m'' = m' := Option.some.inj (hm''.symm.trans hm')
    cases hx : m.lookup x with
    | some index => exact hval x index ((hmem x index).mpr hx)
    | none =>
      rw [hframe x, lookup_empty]
      · rfl
      · intro hkey
        obtain ⟨index, hin⟩ := mem_keys.mp hkey
        rw [(hmem x index).mp hin] at hx
        cases hx
      -- nobody's parent is missing from a linked map
      · refine .inr fun e he hp => ?_
        obtain ⟨q, hq, -⟩ := (hm e.1 e.2 ((hmem e.1 e.2).mp he)).parent x hp
        rw [hq] at hx
        cases hx

end

variable {Hash : Bytes → uint256} {m : BlockMap}

theorem reload_pprev (params : CChainParams) (hm : TreeLinked Hash m) {hash : uint256}
    {index : CBlockIndex} (h : m.lookup hash = some index) :
    (index.reload params).pprev = index.pprev := by
  have hdef : (index.reload params).pprev =
      if index.pprev.getD 0 = 0 then none else some (index.pprev.getD 0) := rfl
  rw [hdef]
  cases hp : index.pprev with
  | none => rfl
  | some p =>
    obtain ⟨q, hq, -⟩ := (hm hash index h).parent p hp
    exact if_neg (hm p q hq).nonzero

theorem treeLinked_reload {m' : BlockMap} (params : CChainParams) (hm : TreeLinked Hash m)
    (hm' : ∀ x, m'.lookup x = (m.lookup x).map fun index => index.reload params) :
    TreeLinked Hash m' := by
  intro hash index' h
  rw [hm'] at h
  obtain ⟨index, hindex, rfl⟩ := Option.map_eq_some_iff.mp h
  have hl := hm hash index hindex
  have hpprev := reload_pprev params hm hindex
  refine ⟨?_, hl.nonzero, fun hp => hl.root (hpprev ▸ hp), fun p hp => ?_⟩
  · rw [← hl.key]
    unfold CBlockIndex.getBlockHeader
    rw [hpprev]
    rfl
  · obtain ⟨q, hq, hheight⟩ := hl.parent p (hpprev ▸ hp)
    exact ⟨q.reload params, by rw [hm', hq]; rfl, hheight⟩

end Alqo
