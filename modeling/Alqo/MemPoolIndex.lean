import Alqo.MemPool
import Alqo.DoubleSpend

/-!
# The index of the memory pool (txmempool.cpp)

`Consistent` is what `CTxMemPool::check` asserts of the index, and that no outpoint is spent twice.
Adding a transaction keeps it exactly if the transaction names no outpoint twice, which nothing in
`AcceptToMemoryPool` makes sure of.
-/

namespace Alqo
open Lib.Runs List AList

namespace CTxMemPool

def Has (pool : CTxMemPool) (tx : CTransaction) : Prop :=
  ∃ entry, pool.mapTx.lookup tx.hash = some entry ∧ entry.tx = tx

def SpendsAt (tx : CTransaction) (n : Nat) (o : COutPoint) : Prop := tx.prevouts[n]? = some o

structure Consistent (pool : CTxMemPool) : Prop where
  next : ∀ o p, pool.mapNextTx o = some p ↔ pool.Has p.ptx ∧ SpendsAt p.ptx p.n o
  size : pool.totalTxSize = (pool.mapTx.entries.map fun e => e.2.getTxSize).sum
  once : ∀ a b m n o, pool.Has a → pool.Has b → SpendsAt a m o → SpendsAt b n o → a = b ∧ m = n

def Keyed (pool : CTxMemPool) : Prop :=
  ∀ hash entry, pool.mapTx.lookup hash = some entry → entry.tx.hash = hash

variable {pool : CTxMemPool} {hash : uint256} {entry : CTxMemPoolEntry} {tx : CTransaction}
  {o : COutPoint} {n : Nat} {vin : List CTxIn} {ctx : AcceptContext}

theorem spendsAt_mem (h : SpendsAt tx n o) : o ∈ tx.prevouts := mem_of_getElem? h

theorem exists_spendsAt (h : o ∈ tx.prevouts) : ∃ n, SpendsAt tx n o := by
  obtain ⟨n, hn, heq⟩ := mem_iff_getElem.mp h
  exact ⟨n, List.getElem?_eq_some_iff.mpr ⟨hn, heq⟩⟩

theorem eraseInputs_apply (vin : List CTxIn) (m : COutPoint → Option CInPoint) (o : COutPoint) :
    eraseInputs vin m o = if o ∈ vin.map CTxIn.prevout then none else m o := by
  induction vin generalizing m with
  | nil => rfl
  | cons txin rest ih =>
    rw [eraseInputs, ih]
    by_cases ho : o = txin.prevout
    · subst ho
      simp
    · simp [ho]

theorem eraseEntry_keyed (h : pool.Keyed) : (pool.eraseEntry hash entry).Keyed := by
  intro hash' entry' hlookup
  have hlookup' : (pool.mapTx.erase hash).lookup hash' = some entry' := hlookup
  by_cases hh : hash' = hash
  · subst hh
    rw [lookup_erase] at hlookup'
    cases hlookup'
  · rw [lookup_erase_ne hh] at hlookup'
    exact h hash' entry' hlookup'

theorem has_eraseEntry_iff :
    (pool.eraseEntry hash entry).Has tx ↔ pool.Has tx ∧ tx.hash ≠ hash := by
  unfold Has eraseEntry
  by_cases hh : tx.hash = hash
  · subst hh
    simp
  · rw [lookup_erase_ne hh]
    exact ⟨fun h => ⟨h, hh⟩, And.left⟩

theorem sum_eraseEntry (h : pool.mapTx.lookup hash = some entry) :
    (pool.mapTx.entries.map fun e => e.2.getTxSize).sum = entry.getTxSize +
        ((pool.eraseEntry hash entry).mapTx.entries.map fun e => e.2.getTxSize).sum := by
  have hkeys : hash ∈ pool.mapTx.entries.keys :=
    AList.mem_keys.mp (lookup_isSome.mp (by rw [h]; rfl))
  obtain ⟨b, l₁, l₂, -, hl, herase⟩ := exists_of_kerase hkeys
  have hb : b = entry := by
    have hmem : (⟨hash, b⟩ : Sigma fun _ : uint256 => CTxMemPoolEntry) ∈ pool.mapTx.entries := by
      rw [hl]
      simp
    have hlookup : pool.mapTx.lookup hash = some b := mem_lookup_iff.mpr hmem
    rw [h] at hlookup
    exact (Option.some.inj hlookup).symm
  show _ = _ + ((pool.mapTx.entries.kerase hash).map fun e => e.2.getTxSize).sum
  rw [herase, hl, hb]
  simp only [map_append, map_cons, sum_append, sum_cons]
  omega

theorem eraseEntry_consistent (hkeyed : pool.Keyed) (hpool : pool.Consistent)
    (h : pool.mapTx.lookup hash = some entry) : (pool.eraseEntry hash entry).Consistent := by
  have hentry : pool.Has entry.tx := ⟨entry, by rw [hkeyed hash entry h]; exact h, rfl⟩
  have hsame : ∀ tx, pool.Has tx → tx.hash = hash → tx = entry.tx := by
    intro tx htx hhash
    obtain ⟨other, hother, rfl⟩ := htx
    rw [hhash, h] at hother
    cases hother
    rfl
  refine ⟨fun o p => ?_, ?_, fun a b m n o ha hb => ?_⟩
  · show eraseInputs entry.tx.vin pool.mapNextTx o = some p ↔ _
    rw [eraseInputs_apply, has_eraseEntry_iff]
    by_cases ho : o ∈ entry.tx.prevouts
    · have ho' : o ∈ entry.tx.vin.map CTxIn.prevout := ho
      rw [if_pos ho']
      refine iff_of_false (by simp) fun hp => ?_
      -- the outpoint is spent by the erased transaction and by no other
      obtain ⟨⟨hhas, hne⟩, hspends⟩ := hp
      obtain ⟨m, hm⟩ := exists_spendsAt ho
      have heq := (hpool.once _ _ _ _ o hhas hentry hspends hm).1
      exact hne (heq ▸ hkeyed hash entry h)
    · have ho' : o ∉ entry.tx.vin.map CTxIn.prevout := ho
      rw [if_neg ho', hpool.next]
      refine ⟨fun hp => ⟨⟨hp.1, fun hhash => ho ?_⟩, hp.2⟩, fun hp => ⟨hp.1.1, hp.2⟩⟩
      rw [← hsame p.ptx hp.1 hhash]
      exact spendsAt_mem hp.2
  · have hsum := sum_eraseEntry h
    show pool.totalTxSize - entry.getTxSize = _
    rw [hpool.size]
    omega
  · rw [has_eraseEntry_iff] at ha hb
    exact hpool.once a b m n o ha.1 hb.1

theorem removeLoop_induct {P : CTxMemPool → Prop}
    (hP : ∀ pool hash entry, P pool → pool.mapTx.lookup hash = some entry →
      P (pool.eraseEntry hash entry))
    (fRecursive : Bool) (pool : CTxMemPool) (removed : List CTransaction)
    (txToRemove : List uint256) (h : P pool) :
    P (removeLoop fRecursive pool removed txToRemove).1 := by
  fun_induction removeLoop fRecursive pool removed txToRemove with
  | case1 pool removed => exact h
  | case2 pool removed hash txToRemove hnone ih => exact ih h
  | case3 pool removed hash txToRemove entry hlookup ih => exact ih (hP pool hash entry h hlookup)

section
variable {P : CTxMemPool → Prop}
  (hP : ∀ pool hash entry, P pool → pool.mapTx.lookup hash = some entry →
    P (pool.eraseEntry hash entry))
include hP

theorem remove_induct (origTx : CTransaction) (removed : List CTransaction) (fRecursive : Bool)
    (h : P pool) : P (pool.remove origTx removed fRecursive).1 :=
  removeLoop_induct hP fRecursive pool removed _ h

theorem removeAll_induct (txs : List CTransaction) (h : P pool) : P (pool.removeAll txs) := by
  induction txs generalizing pool with
  | nil => exact h
  | cons tx rest ih => exact ih (remove_induct hP tx [] true h)

theorem removeConflictsOf_induct (tx : CTransaction) (vin : List CTxIn)
    (s : CTxMemPool × List CTransaction) (h : P s.1) : P (removeConflictsOf tx vin s).1 := by
  induction vin generalizing s with
  | nil => exact h
  | cons txin rest ih =>
    obtain ⟨pool, removed⟩ := s
    unfold removeConflictsOf
    cases pool.mapNextTx txin.prevout with
    | none => exact ih (pool, removed) h
    | some inpoint =>
      dsimp only
      split_ifs
      · exact ih _ (remove_induct hP inpoint.ptx removed true h)
      · exact ih (pool, removed) h

theorem removeForBlock_induct (conflicts vtx : List CTransaction) (h : P pool) :
    P (pool.removeForBlock conflicts vtx).1 := by
  induction vtx generalizing pool conflicts with
  | nil => exact h
  | cons tx rest ih =>
    exact ih _ (removeConflictsOf_induct hP tx tx.vin _ (remove_induct hP tx [] false h))

end

theorem addInputs_of_not_mem (ho : o ∉ vin.map CTxIn.prevout) (i : Nat)
    (m : COutPoint → Option CInPoint) :
    addInputs tx i vin m o = m o := by
  induction vin generalizing i m with
  | nil => rfl
  | cons txin rest ih =>
    rw [map_cons, mem_cons, not_or] at ho
    rw [addInputs, ih ho.2, Function.update_of_ne ho.1]

theorem addInputs_of_mem (tx : CTransaction) (ho : o ∈ vin.map CTxIn.prevout) (i : Nat)
    (m : COutPoint → Option CInPoint) :
    ∃ n, addInputs tx i vin m o = some ⟨tx, i + n⟩ ∧ (vin.map CTxIn.prevout)[n]? = some o := by
  induction vin generalizing i m with
  | nil => cases ho
  | cons txin rest ih =>
    by_cases hrest : o ∈ rest.map CTxIn.prevout
    · obtain ⟨n, hn, hget⟩ := ih hrest (i + 1) (Function.update m txin.prevout (some ⟨tx, i⟩))
      refine ⟨n + 1, ?_, hget⟩
      rw [addInputs, hn]
      congr 2
      omega
    · rw [map_cons, mem_cons, or_iff_left hrest] at ho
      subst ho
      refine ⟨0, ?_, rfl⟩
      rw [addInputs, addInputs_of_not_mem hrest, Function.update_self]
      rfl

theorem has_addUnchecked_iff (entry : CTxMemPoolEntry)
    (hnew : pool.mapTx.lookup entry.tx.hash = none) :
    (pool.addUnchecked entry.tx.hash entry).Has tx ↔ tx = entry.tx ∨ pool.Has tx := by
  unfold Has addUnchecked
  by_cases hh : tx.hash = entry.tx.hash
  · rw [hh, lookup_insert, hnew]
    simp [eq_comm]
  · rw [lookup_insert_ne hh]
    refine ⟨.inr, fun h => h.resolve_left fun heq => hh ?_⟩
    rw [heq]

theorem addUnchecked_keyed (entry : CTxMemPoolEntry) (h : pool.Keyed) :
    (pool.addUnchecked entry.tx.hash entry).Keyed := by
  intro hash other hlookup
  have hlookup' : (pool.mapTx.insert entry.tx.hash entry).lookup hash = some other := hlookup
  by_cases hh : hash = entry.tx.hash
  · subst hh
    rw [lookup_insert] at hlookup'
    cases hlookup'
    rfl
  · rw [lookup_insert_ne hh] at hlookup'
    exact h hash other hlookup'

theorem SpendsAt.inj {m : Nat} (hnodup : tx.prevouts.Nodup) (hm : SpendsAt tx m o)
    (hn : SpendsAt tx n o) : m = n := by
  obtain ⟨hm, hmo⟩ := List.getElem?_eq_some_iff.mp hm
  obtain ⟨hn, hno⟩ := List.getElem?_eq_some_iff.mp hn
  exact (hnodup.getElem_inj_iff).mp (hmo.trans hno.symm)

theorem addUnchecked_consistent (entry : CTxMemPoolEntry) (hpool : pool.Consistent)
    (hnew : pool.mapTx.lookup entry.tx.hash = none)
    (hfree : ∀ o ∈ entry.tx.prevouts, pool.mapNextTx o = none)
    (hnodup : entry.tx.prevouts.Nodup) :
    (pool.addUnchecked entry.tx.hash entry).Consistent := by
  -- no transaction of the pool spends what the new one spends
  have hapart : ∀ tx m o, pool.Has tx → SpendsAt tx m o → o ∉ entry.tx.prevouts := by
    intro tx m o htx hspends ho
    have hnext := (hpool.next o ⟨tx, m⟩).mpr ⟨htx, hspends⟩
    rw [hfree o ho] at hnext
    cases hnext
  refine ⟨fun o p => ?_, ?_, fun a b m n o ha hb hm hn => ?_⟩
  · show addInputs entry.tx 0 entry.tx.vin pool.mapNextTx o = some p ↔ _
    rw [has_addUnchecked_iff entry hnew]
    by_cases ho : o ∈ entry.tx.prevouts
    · obtain ⟨n, hadd, hget⟩ := addInputs_of_mem entry.tx ho 0 pool.mapNextTx
      have hspends : SpendsAt entry.tx n o := hget
      rw [hadd, Nat.zero_add]
      constructor
      · intro hp
        cases hp
        exact ⟨.inl rfl, hspends⟩
      · intro hp
        obtain ⟨heq | hhas, hp⟩ := hp
        · obtain ⟨ptx, k⟩ := p
          dsimp only at heq hp
          subst heq
          rw [SpendsAt.inj hnodup hp hspends]
        · exact absurd ho (hapart _ _ _ hhas hp)
    · rw [addInputs_of_not_mem ho, hpool.next]
      refine ⟨fun hp => ⟨.inr hp.1, hp.2⟩, fun hp => ⟨hp.1.resolve_left fun heq => ho ?_, hp.2⟩⟩
      rw [← heq]
      exact spendsAt_mem hp.2
  · have hnotin : entry.tx.hash ∉ pool.mapTx := lookup_eq_none.mp hnew
    show pool.totalTxSize + entry.getTxSize =
      ((pool.mapTx.insert entry.tx.hash entry).entries.map fun e => e.2.getTxSize).sum
    rw [entries_insert_of_notMem hnotin, map_cons, sum_cons, hpool.size]
    exact Nat.add_comm _ _
  · rw [has_addUnchecked_iff entry hnew] at ha hb
    rcases ha with rfl | ha
    · rcases hb with rfl | hb
      · exact ⟨rfl, SpendsAt.inj hnodup hm hn⟩
      · exact absurd (spendsAt_mem hm) (hapart b n o hb hn)
    · rcases hb with rfl | hb
      · exact absurd (spendsAt_mem hn) (hapart a m o ha hm)
      · exact hpool.once a b m n o ha hb hm hn

theorem nodup_of_consistent (hpool : pool.Consistent) (htx : pool.Has tx) :
    tx.prevouts.Nodup := by
  rw [nodup_iff_injective_get]
  intro m n heq
  have hm : SpendsAt tx m (tx.prevouts.get m) := getElem?_eq_getElem m.isLt
  have hn : SpendsAt tx n (tx.prevouts.get m) := by
    rw [heq]
    exact getElem?_eq_getElem n.isLt
  exact Fin.ext (hpool.once tx tx m n _ htx htx hm hn).2

theorem checkBeforeInputs_ok (h : pool.checkBeforeInputs ctx tx = .ok ()) :
    pool.mapTx.lookup tx.hash = none ∧ ∀ o ∈ tx.prevouts, pool.mapNextTx o = none := by
  unfold checkBeforeInputs at h
  split at h
  · cases h
  · cases h
  · cases hreason : ctx.nonStandard tx with
    | some reason =>
      rw [hreason] at h
      split_ifs at h <;> cases h
    | none =>
      rw [hreason] at h
      split_ifs at h with hcoinbase hcoinstake hfinal hexists hlock hnext
      · cases h
      · cases h
      · cases h
      · cases h
      · cases h
      · rw [Bool.not_eq_true, any_eq_false] at hnext
        refine ⟨by simpa using hexists, fun o ho => ?_⟩
        obtain ⟨txin, hmem, rfl⟩ := mem_map.mp ho
        simpa using hnext txin hmem
      · cases h

theorem acceptToMemoryPool_ok {pool' : CTxMemPool} (h : acceptToMemoryPool ctx pool tx = .ok pool')
    :
    pool.mapTx.lookup tx.hash = none ∧ (∀ o ∈ tx.prevouts, pool.mapNextTx o = none) ∧
      ∃ nFees, pool' = pool.addUnchecked tx.hash ⟨tx, nFees⟩ := by
  unfold acceptToMemoryPool at h
  cases hbefore : pool.checkBeforeInputs ctx tx with
  | error e =>
    rw [hbefore] at h
    cases h
  | ok u =>
    cases hwith : checkWithInputs ctx (pool.view ctx.pcoinsTip) tx with
    | error e =>
      rw [hbefore, hwith] at h
      cases h
    | ok nFees =>
      rw [hbefore, hwith] at h
      cases h
      obtain ⟨hnew, hfree⟩ := checkBeforeInputs_ok hbefore
      exact ⟨hnew, hfree, nFees, rfl⟩

end CTxMemPool

open CTxMemPool

inductive PoolEvent where
  | accept (tx : CTransaction) (ctx : AcceptContext)
  | remove (origTx : CTransaction) (fRecursive : Bool)
  | removeForBlock (vtx : List CTransaction)
  | removeConflicts (tx : CTransaction)
  | removeCoinbaseSpends (params : CChainParams) (pcoins : CoinsView) (nMemPoolHeight : Nat)
  | clear

def poolStep (pool : CTxMemPool) : PoolEvent → CTxMemPool
  | .accept tx ctx =>
    match acceptToMemoryPool ctx pool tx with
    | .ok pool' => pool'
    | .error _ => pool
  | .remove origTx fRecursive => (pool.remove origTx [] fRecursive).1
  | .removeForBlock vtx => (pool.removeForBlock [] vtx).1
  | .removeConflicts tx => (pool.removeConflicts tx []).1
  | .removeCoinbaseSpends params pcoins nMemPoolHeight =>
    pool.removeCoinbaseSpends params pcoins nMemPoolHeight
  | .clear => {}

def NamesOnce (pool : CTxMemPool) : PoolEvent → Prop
  | .accept tx ctx => ∀ pool', acceptToMemoryPool ctx pool tx = .ok pool' → tx.prevouts.Nodup
  | _ => True

theorem keyed_empty : Keyed {} := by
  intro hash entry hlookup
  cases hlookup

theorem consistent_empty : Consistent {} := by
  refine ⟨fun o p => ?_, rfl, fun a b m n o ha => ?_⟩
  · refine iff_of_false nofun fun hp => ?_
    obtain ⟨⟨entry, hentry, -⟩, -⟩ := hp
    cases hentry
  · obtain ⟨entry, hentry, -⟩ := ha
    cases hentry

variable {pool : CTxMemPool} {tx : CTransaction} {ctx : AcceptContext}

theorem poolStep_induct {P : CTxMemPool → Prop}
    (hP : ∀ pool hash entry, P pool → pool.mapTx.lookup hash = some entry →
      P (pool.eraseEntry hash entry)) (hempty : P {}) (e : PoolEvent)
    (h : P pool) (he : ∀ tx ctx, e ≠ .accept tx ctx) : P (poolStep pool e) := by
  cases e with
  | accept tx ctx => exact absurd rfl (he tx ctx)
  | remove origTx fRecursive => exact remove_induct hP origTx [] fRecursive h
  | removeForBlock vtx => exact removeForBlock_induct hP [] vtx h
  | removeConflicts tx => exact removeConflictsOf_induct hP tx tx.vin (pool, []) h
  | removeCoinbaseSpends params pcoins nMemPoolHeight => exact removeAll_induct hP _ h
  | clear => exact hempty

theorem poolStep_accept {pool' : CTxMemPool} (h : acceptToMemoryPool ctx pool tx = .ok pool') :
    poolStep pool (.accept tx ctx) = pool' := by
  rw [poolStep, h]

theorem poolStep_refuse {e : Failure} (h : acceptToMemoryPool ctx pool tx = .error e) :
    poolStep pool (.accept tx ctx) = pool := by
  rw [poolStep, h]

theorem keyed_step (h : pool.Keyed) (e : PoolEvent) : (poolStep pool e).Keyed := by
  cases e with
  | accept tx ctx =>
    cases haccept : acceptToMemoryPool ctx pool tx with
    | error e =>
      rw [poolStep_refuse haccept]
      exact h
    | ok pool' =>
      obtain ⟨-, -, nFees, rfl⟩ := acceptToMemoryPool_ok haccept
      rw [poolStep_accept haccept]
      exact addUnchecked_keyed ⟨tx, nFees⟩ h
  | _ =>
    exact poolStep_induct (fun pool hash entry h _ => eraseEntry_keyed h) keyed_empty _ h
      fun _ _ => nofun

theorem consistent_step_iff (hkeyed : pool.Keyed) (hpool : pool.Consistent) (e : PoolEvent) :
    (poolStep pool e).Consistent ↔ NamesOnce pool e := by
  cases e with
  | accept tx ctx =>
    cases haccept : acceptToMemoryPool ctx pool tx with
    | error e =>
      rw [poolStep_refuse haccept]
      refine iff_of_true hpool fun pool' hok => ?_
      rw [haccept] at hok
      cases hok
    | ok pool' =>
      obtain ⟨hnew, hfree, nFees, rfl⟩ := acceptToMemoryPool_ok haccept
      rw [poolStep_accept haccept]
      constructor
      · intro hadded _ _
        exact nodup_of_consistent hadded ((has_addUnchecked_iff ⟨tx, nFees⟩ hnew).mpr (.inl rfl))
      · intro hnodup
        exact addUnchecked_consistent ⟨tx, nFees⟩ hpool hnew hfree (hnodup _ haccept)
  | _ =>
    refine iff_of_true ?_ trivial
    refine (poolStep_induct (P := fun pool => pool.Keyed ∧ pool.Consistent)
      (fun pool hash entry h hlookup => ?_) ⟨keyed_empty, consistent_empty⟩ _ ⟨hkeyed, hpool⟩ ?_).2
    · exact ⟨eraseEntry_keyed h.1, eraseEntry_consistent h.1 h.2 hlookup⟩
    · exact fun _ _ => nofun

/-- The index and the size of the pool are exact throughout a run precisely if no
transaction that is accepted names an outpoint twice. -/
theorem memPool_consistent_iff (events : List PoolEvent) :
    Always poolStep Consistent {} events ↔ Along poolStep NamesOnce {} events := by
  exact always_iff_along (fun pool e (h : pool.Keyed) => keyed_step h e)
    (fun pool e hkeyed hpool => consistent_step_iff hkeyed hpool e) {} events keyed_empty
    consistent_empty

def paidContext : AcceptContext where
  node := Node.afterFirst
  pcoinsTip := CoinsView.paid

/-- A transaction that takes the same coin twice is accepted, and the index leads to
its second input only. -/
theorem doubleSpend_indexed_once :
    let pool := run poolStep {} [.accept doubleSpend paidContext]
    pool.mapTx.lookup doubleSpend.hash = some ⟨doubleSpend, 0⟩ ∧
      doubleSpend.prevouts = [⟨paidTx.hash, 0⟩, ⟨paidTx.hash, 0⟩] ∧
      pool.mapNextTx ⟨paidTx.hash, 0⟩ = some ⟨doubleSpend, 1⟩ := by
  decide +kernel

end Alqo
