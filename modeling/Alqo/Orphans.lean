import Alqo.Downloads
import Alqo.Lib.ReverseIndex

/-!
# Orphan transactions (main.cpp)

`EraseOrphansFor` and `LimitOrphanTxSize` erase while they walk the map. The random hashes of the
latter are data of the event.
-/

namespace Alqo
open Lib.ReverseIndex Lib.Runs List AList

structure COrphanTx where
  tx : CTransaction
  fromPeer : NodeId
deriving DecidableEq

structure OrphanPool where
  mapOrphanTransactions : AList fun _ : uint256 => COrphanTx := ∅
  mapOrphanTransactionsByPrev : Index uint256 uint256 := ∅

inductive OrphanEvent where
  | addOrphanTx (tx : CTransaction) (peer : NodeId)
  | eraseOrphanTx (hash : uint256)
  | eraseOrphansFor (peer : NodeId)
  | limitOrphanTxSize (nMaxOrphans : Nat) (getRandHash : Nat → uint256)

def CTransaction.parents (tx : CTransaction) : List uint256 := tx.vin.map fun txin => txin.prevout.hash

namespace OrphanPool

section
variable (s : OrphanPool)

/- `AddOrphanTx`: the pool and the result. -/
def addOrphanTx (tx : CTransaction) (peer : NodeId) : OrphanPool × Bool :=
  match s.mapOrphanTransactions.lookup tx.hash with
  | some _ => (s, false)
  | none =>
    if tx.getSerializeSize > 5000 then (s, false)
    else
      ({ mapOrphanTransactions := s.mapOrphanTransactions.insert tx.hash ⟨tx, peer⟩
         mapOrphanTransactionsByPrev := tx.parents.foldl (add tx.hash) s.mapOrphanTransactionsByPrev },
        true)

def eraseOrphanTx (hash : uint256) : OrphanPool :=
  match s.mapOrphanTransactions.lookup hash with
  | none => s
  | some orphan =>
    { mapOrphanTransactions := s.mapOrphanTransactions.erase hash
      mapOrphanTransactionsByPrev :=
        orphan.tx.parents.foldl (remove hash) s.mapOrphanTransactionsByPrev }

/- `EraseOrphansFor`; the iterator has moved on when an entry goes. -/
def eraseOrphansFor (peer : NodeId) : OrphanPool :=
  s.mapOrphanTransactions.entries.foldl
    (fun s e => if e.2.fromPeer = peer then s.eraseOrphanTx e.2.tx.hash else s) s

def size : Nat := s.mapOrphanTransactions.keys.length

/- `lower_bound(randomhash)`, or the first entry after the end. -/
def evicted (randomhash : uint256) : Option uint256 :=
  ((s.mapOrphanTransactions.keys.filter fun hash => randomhash ≤ hash).argmin BitVec.toNat).or
    (s.mapOrphanTransactions.keys.argmin BitVec.toNat)

/- The loop of `LimitOrphanTxSize`: pool and `nEvicted`. Each turn erases an orphan, so
there are no more turns than orphans. -/
def limitFrom (nMaxOrphans : Nat) (getRandHash : Nat → uint256) :
    (turns nEvicted : Nat) → OrphanPool → OrphanPool × Nat
  | 0, nEvicted, s => (s, nEvicted)
  | turns + 1, nEvicted, s =>
    if s.size > nMaxOrphans then
      match s.evicted (getRandHash nEvicted) with
      | none => (s, nEvicted)
      | some hash => limitFrom nMaxOrphans getRandHash turns (nEvicted + 1) (s.eraseOrphanTx hash)
    else (s, nEvicted)

def limitOrphanTxSize (nMaxOrphans : Nat) (getRandHash : Nat → uint256) : OrphanPool × Nat :=
  limitFrom nMaxOrphans getRandHash s.size 0 s

def step : OrphanEvent → OrphanPool
  | .addOrphanTx tx peer => (s.addOrphanTx tx peer).1
  | .eraseOrphanTx hash => s.eraseOrphanTx hash
  | .eraseOrphansFor peer => s.eraseOrphansFor peer
  | .limitOrphanTxSize nMaxOrphans getRandHash => (s.limitOrphanTxSize nMaxOrphans getRandHash).1

end

structure Indexed (s : OrphanPool) : Prop where
  keyed : ∀ hash orphan, s.mapOrphanTransactions.lookup hash = some orphan → orphan.tx.hash = hash
  spends : ∀ parent hash, hash ∈ under s.mapOrphanTransactionsByPrev parent ↔
    ∃ orphan, s.mapOrphanTransactions.lookup hash = some orphan ∧ parent ∈ orphan.tx.parents
  noEmpty : NoEmpty s.mapOrphanTransactionsByPrev

variable {s : OrphanPool} {hash : uint256}

theorem indexed_start : Indexed {} where
  keyed := by
    intro hash orphan h
    cases h
  spends := by
    intro parent hash
    constructor
    · intro h
      cases h
    · rintro ⟨orphan, h, -⟩
      cases h
  noEmpty := by
    intro parent h
    cases h

theorem Indexed.addOrphanTx (h : s.Indexed) (tx : CTransaction) (peer : NodeId) :
    (s.addOrphanTx tx peer).1.Indexed := by
  unfold OrphanPool.addOrphanTx
  cases hlookup : s.mapOrphanTransactions.lookup tx.hash with
  | some orphan => exact h
  | none =>
  split_ifs
  · exact h
  refine ⟨?_, ?_, h.noEmpty.addAll _⟩
  · intro hash orphan hfound
    by_cases heq : hash = tx.hash
    · rw [heq, lookup_insert] at hfound
      cases hfound
      exact heq.symm
    · rw [lookup_insert_ne heq] at hfound
      exact h.keyed hash orphan hfound
  · intro parent hash
    rw [mem_under_addAll, h.spends]
    by_cases heq : hash = tx.hash
    · subst heq
      rw [hlookup, lookup_insert]
      simp
    · rw [lookup_insert_ne heq]
      simp [heq]

theorem Indexed.eraseOrphanTx (h : s.Indexed) (hash : uint256) : (s.eraseOrphanTx hash).Indexed := by
  unfold OrphanPool.eraseOrphanTx
  cases hlookup : s.mapOrphanTransactions.lookup hash with
  | none => exact h
  | some orphan =>
  refine ⟨?_, ?_, h.noEmpty.removeAll _⟩
  · intro hash' orphan' hfound
    by_cases heq : hash' = hash
    · rw [heq, lookup_erase] at hfound
      cases hfound
    · rw [lookup_erase_ne heq] at hfound
      exact h.keyed hash' orphan' hfound
  · intro parent hash'
    rw [mem_under_removeAll, h.spends]
    by_cases heq : hash' = hash
    · subst heq
      rw [hlookup, lookup_erase]
      simp
    · rw [lookup_erase_ne heq]
      simp [heq]

theorem lookup_eraseOrphanTx (hash hash' : uint256) :
    (s.eraseOrphanTx hash).mapOrphanTransactions.lookup hash' =
      if hash' = hash then none else s.mapOrphanTransactions.lookup hash' := by
  unfold OrphanPool.eraseOrphanTx
  split_ifs with heq
  · subst heq
    cases hlookup : s.mapOrphanTransactions.lookup hash' with
    | none => exact hlookup
    | some orphan => exact lookup_erase _ _
  · cases s.mapOrphanTransactions.lookup hash with
    | none => rfl
    | some orphan => exact lookup_erase_ne heq

theorem lookup_eraseOrphansFrom (peer : NodeId) (h : s.Indexed)
    (l : List (Sigma fun _ : uint256 => COrphanTx)) (hash : uint256) :
    (l.foldl (fun s e => if e.2.fromPeer = peer then s.eraseOrphanTx e.2.tx.hash else s)
        s).mapOrphanTransactions.lookup hash =
      if ∃ e ∈ l, e.2.fromPeer = peer ∧ e.2.tx.hash = hash then none
      else s.mapOrphanTransactions.lookup hash := by
  induction l generalizing s with
  | nil => simp
  | cons e l ih =>
    rw [foldl_cons]
    by_cases he : e.2.fromPeer = peer
    · rw [if_pos he, ih (h.eraseOrphanTx _), lookup_eraseOrphanTx]
      by_cases hhash : hash = e.2.tx.hash
      · rw [if_pos hhash, ite_self, if_pos ⟨e, mem_cons_self, he, hhash.symm⟩]
      · rw [if_neg hhash]
        simp only [mem_cons, exists_eq_or_imp, Ne.symm hhash, and_false, false_or]
    · rw [if_neg he, ih h]
      simp only [mem_cons, exists_eq_or_imp, he, false_and, false_or]

theorem Indexed.eraseOrphansFor (h : s.Indexed) (peer : NodeId) :
    (s.eraseOrphansFor peer).Indexed := by
  unfold OrphanPool.eraseOrphansFor
  induction s.mapOrphanTransactions.entries generalizing s with
  | nil => exact h
  | cons e l ih =>
    rw [foldl_cons]
    split_ifs
    · exact ih (h.eraseOrphanTx _)
    · exact ih h

theorem lookup_eraseOrphansFor (h : s.Indexed) (peer : NodeId) (hash : uint256) (orphan : COrphanTx) :
    (s.eraseOrphansFor peer).mapOrphanTransactions.lookup hash = some orphan ↔
      s.mapOrphanTransactions.lookup hash = some orphan ∧ orphan.fromPeer ≠ peer := by
  rw [OrphanPool.eraseOrphansFor, lookup_eraseOrphansFrom peer h]
  constructor
  · intro hfound
    split_ifs at hfound with herased
    refine ⟨hfound, ?_⟩
    intro hpeer
    exact herased ⟨⟨hash, orphan⟩, mem_lookup_iff.mp hfound, hpeer, h.keyed hash orphan hfound⟩
  · rintro ⟨hfound, hpeer⟩
    rw [if_neg]
    · exact hfound
    · rintro ⟨⟨hash', orphan'⟩, hmem, hpeer', hhash⟩
      have hlookup := mem_lookup_iff.mpr hmem
      rw [← h.keyed hash' orphan' hlookup, hhash] at hlookup
      have hsame := Option.some.inj (hlookup.symm.trans hfound)
      exact hpeer (hsame ▸ hpeer')

theorem evicted_mem {randomhash : uint256} (h : s.evicted randomhash = some hash) :
    hash ∈ s.mapOrphanTransactions := by
  rw [AList.mem_keys]
  rcases Option.or_eq_some_iff.mp h with hfirst | ⟨-, hfirst⟩
  · exact mem_of_mem_filter (argmin_mem hfirst)
  · exact argmin_mem hfirst

theorem evicted_ne_none (h : 0 < s.size) (randomhash : uint256) : s.evicted randomhash ≠ none := by
  intro hnone
  have hkeys := (Option.or_eq_none_iff.mp hnone).2
  rw [argmin_eq_none] at hkeys
  rw [OrphanPool.size, hkeys] at h
  exact absurd h (Nat.lt_irrefl 0)

theorem size_eraseOrphanTx (h : hash ∈ s.mapOrphanTransactions) :
    (s.eraseOrphanTx hash).size + 1 = s.size := by
  unfold OrphanPool.eraseOrphanTx
  cases hlookup : s.mapOrphanTransactions.lookup hash with
  | none => exact absurd h (lookup_eq_none.mp hlookup)
  | some orphan =>
    dsimp only [OrphanPool.size]
    rw [keys_erase]
    exact length_erase_add_one (AList.mem_keys.mp h)

theorem limitFrom_spec (nMaxOrphans : Nat) (getRandHash : Nat → uint256) (turns nEvicted : Nat)
    (s : OrphanPool) (h : s.Indexed) (hturns : s.size ≤ nMaxOrphans + turns) :
    (limitFrom nMaxOrphans getRandHash turns nEvicted s).1.Indexed ∧
      (limitFrom nMaxOrphans getRandHash turns nEvicted s).1.size ≤ nMaxOrphans := by
  induction turns generalizing nEvicted s with
  | zero => exact ⟨h, hturns⟩
  | succ turns ih =>
    rw [limitFrom]
    split_ifs with hsize
    · cases hevicted : s.evicted (getRandHash nEvicted) with
      | none => exact absurd hevicted (evicted_ne_none (by omega) _)
      | some hash =>
        have hless := size_eraseOrphanTx (evicted_mem hevicted)
        exact ih (nEvicted + 1) (s.eraseOrphanTx hash) (h.eraseOrphanTx hash) (by omega)
    · exact ⟨h, Nat.le_of_not_lt hsize⟩

theorem Indexed.limitOrphanTxSize (h : s.Indexed) (nMaxOrphans : Nat) (getRandHash : Nat → uint256) :
    (s.limitOrphanTxSize nMaxOrphans getRandHash).1.Indexed ∧
      (s.limitOrphanTxSize nMaxOrphans getRandHash).1.size ≤ nMaxOrphans :=
  limitFrom_spec nMaxOrphans getRandHash s.size 0 s h (by omega)

theorem Indexed.step (h : s.Indexed) (e : OrphanEvent) : (s.step e).Indexed := by
  cases e with
  | addOrphanTx tx peer => exact h.addOrphanTx tx peer
  | eraseOrphanTx hash => exact h.eraseOrphanTx hash
  | eraseOrphansFor peer => exact h.eraseOrphansFor peer
  | limitOrphanTxSize nMaxOrphans getRandHash => exact (h.limitOrphanTxSize nMaxOrphans getRandHash).1

/-- After any calls a transaction stands under a parent just if it is an orphan that spends
from it, no parent has an empty set, a peer's orphans can be erased and the number of
orphans limited. -/
theorem orphans_indexed (events : List OrphanEvent) :
    let s := run step {} events
    (∀ parent hash, hash ∈ under s.mapOrphanTransactionsByPrev parent ↔
      ∃ orphan, s.mapOrphanTransactions.lookup hash = some orphan ∧
        ∃ txin ∈ orphan.tx.vin, txin.prevout.hash = parent) ∧
    (∀ parent, s.mapOrphanTransactionsByPrev.lookup parent ≠ some ∅) ∧
    (∀ peer hash orphan, (s.eraseOrphansFor peer).mapOrphanTransactions.lookup hash = some orphan →
      orphan.fromPeer ≠ peer) ∧
    ∀ nMaxOrphans getRandHash,
      (s.limitOrphanTxSize nMaxOrphans getRandHash).1.mapOrphanTransactions.keys.length ≤
        nMaxOrphans := by
  intro s
  have hstep : ∀ s e, Indexed s → Indexed (step s e) := fun s e h => h.step e
  have h : s.Indexed := run_induct hstep {} events indexed_start
  refine ⟨?_, h.noEmpty, ?_, ?_⟩
  · intro parent hash
    rw [h.spends]
    simp only [CTransaction.parents, List.mem_map]
  · intro peer hash orphan hfound
    exact ((lookup_eraseOrphansFor h peer hash orphan).mp hfound).2
  · intro nMaxOrphans getRandHash
    exact (h.limitOrphanTxSize nMaxOrphans getRandHash).2

end OrphanPool

end Alqo
