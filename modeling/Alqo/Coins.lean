import Alqo.Primitives

/-!
# Unspent outputs of one transaction (coins.h, coins.cpp, undo.h)

`CCoins.abs` is what the vector means: which output is unspent at each position, next to the
metadata. `StoredCoins` is a `CCoins` as a database holds it: cleaned up and not fully spent.
-/

namespace Alqo
open Function List Option

structure CCoins where
  fCoinBase : Bool := false
  fCoinStake : Bool := false
  vout : List CTxOut := []
  nHeight : Nat := 0
  nVersion : Int := 0
deriving DecidableEq, Repr

/-- Undo information of one input: the metadata is filled in
only when the input spent the last output of its transaction. -/
structure CTxInUndo where
  txout : CTxOut
  fCoinBase : Bool := false
  fCoinStake : Bool := false
  nHeight : Nat := 0
  nVersion : Int := 0
deriving DecidableEq, Repr

structure CTxUndo where
  vprevout : List CTxInUndo := []
deriving DecidableEq, Repr

structure UnspentTx where
  fCoinBase : Bool
  fCoinStake : Bool
  nHeight : Nat
  nVersion : Int
  out : Nat → Option CTxOut

namespace CCoins

variable (c : CCoins)

def cleanup : CCoins := { c with vout := c.vout.rdropWhile CTxOut.isNull }

def clearUnspendable : CCoins :=
  cleanup { c with
    vout := c.vout.map fun out => if isUnspendable out.scriptPubKey then CTxOut.null else out }

/- It is also the constructor from a
transaction. -/
def fromTx (tx : CTransaction) (nHeight : Nat) : CCoins :=
  clearUnspendable {
    fCoinBase := tx.isCoinBase
    fCoinStake := tx.isCoinStake
    vout := tx.vout
    nHeight := nHeight
    nVersion := tx.nVersion }

def clear : CCoins := {}

def isPruned : Bool := c.vout.all CTxOut.isNull

def isAvailable (nPos : Nat) : Bool :=
  match c.vout[nPos]? with
  | some out => !out.isNull
  | none => false

/-- `operator==`: empty objects are always equal. -/
def equal (a b : CCoins) : Bool :=
  (a.isPruned && b.isPruned) || a == b

def spent (n : Nat) : CCoins := cleanup { c with vout := c.vout.set n CTxOut.null }

def undoFor (txout : CTxOut) (last : Bool) : CTxInUndo :=
  if last then ⟨txout, c.fCoinBase, c.fCoinStake, c.nHeight, c.nVersion⟩ else { txout := txout }

/- `none` is the `false` return, which
leaves the object unchanged. -/
def spend (out : COutPoint) : Option (CCoins × CTxInUndo) :=
  match c.vout[out.n]? with
  | none => none
  | some txout =>
    if txout.isNull then none
    else some (c.spent out.n, c.undoFor txout ((c.spent out.n).vout.length == 0))

def unspent (n : Nat) : Option CTxOut := c.vout[n]?.filter fun out => !out.isNull

def abs : UnspentTx :=
  ⟨c.fCoinBase, c.fCoinStake, c.nHeight, c.nVersion, c.unspent⟩

theorem unspent_eq_some_iff (n : Nat) (out : CTxOut) :
    c.unspent n = some out ↔ c.vout[n]? = some out ∧ out.isNull = false := by
  simp [unspent, filter_eq_some_iff]

theorem isAvailable_iff (n : Nat) : c.isAvailable n = true ↔ ∃ out, c.unspent n = some out := by
  simp only [unspent_eq_some_iff, isAvailable]
  cases h : c.vout[n]? with
  | none => simp
  | some out => simp

theorem isPruned_iff : c.isPruned = true ↔ ∀ n, c.unspent n = none := by
  simp only [isPruned, List.all_eq_true, mem_iff_getElem?, forall_exists_index]
  constructor
  · intro h n
    cases hn : c.vout[n]? with
    | none => simp [unspent, hn]
    | some out => simp [unspent, hn, h out n hn]
  · intro h out n hn
    have hnone := h n
    rw [unspent, hn] at hnone
    simpa using hnone

theorem getElem?_filter_rdropWhile (l : List CTxOut) (n : Nat) :
    ((l.rdropWhile CTxOut.isNull)[n]?.filter fun out => !out.isNull) =
      l[n]?.filter fun out => !out.isNull := by
  induction l using List.reverseRecOn with
  | nil => rfl
  | append_singleton l out ih =>
    by_cases h : out.isNull = true
    · rw [rdropWhile_concat_pos _ _ _ h, ih]
      rcases lt_trichotomy n l.length with hn | hn | hn
      · rw [getElem?_append_left hn]
      · subst hn
        simp [filter_some, h]
      · rw [getElem?_eq_none (by omega), getElem?_eq_none (by simp; omega)]
    · rw [rdropWhile_concat_neg _ _ _ h]

@[simp] theorem unspent_cleanup : c.cleanup.unspent = c.unspent := by
  funext n
  exact getElem?_filter_rdropWhile c.vout n

@[simp] theorem abs_cleanup : c.cleanup.abs = c.abs := by
  simp only [abs, unspent_cleanup]
  rfl

@[simp] theorem isPruned_cleanup : c.cleanup.isPruned = c.isPruned := by
  rw [Bool.eq_iff_iff, isPruned_iff, isPruned_iff, unspent_cleanup]

@[simp] theorem cleanup_cleanup : c.cleanup.cleanup = c.cleanup := by
  simp only [cleanup, rdropWhile_idempotent]

theorem cleanup_vout_eq_nil_iff : c.cleanup.vout = [] ↔ c.isPruned = true := by
  simp [cleanup, isPruned, rdropWhile_eq_nil_iff]

@[simp] theorem unspent_clear (n : Nat) : clear.unspent n = none := rfl

@[simp] theorem unspent_spent (n : Nat) :
    (c.spent n).unspent = update c.unspent n none := by
  rw [spent, unspent_cleanup]
  funext m
  by_cases h : m = n
  · subst h
    simp only [unspent, update_self, getElem?_set_self']
    cases c.vout[m]? with
    | none => rfl
    | some out => rfl
  · rw [update_of_ne h]
    simp only [unspent, getElem?_set_ne (Ne.symm h)]

@[simp] theorem abs_spent (n : Nat) :
    (c.spent n).abs = { c.abs with out := update c.abs.out n none } := by
  simp only [abs, unspent_spent]
  rfl

theorem spent_length_eq_zero (n : Nat) : ((c.spent n).vout.length == 0) = (c.spent n).isPruned := by
  rw [Bool.eq_iff_iff, beq_iff_eq, length_eq_zero_iff, spent, cleanup_vout_eq_nil_iff,
    isPruned_cleanup]

theorem spend_some_iff (c c' : CCoins) (out : COutPoint) (undo : CTxInUndo) :
    c.spend out = some (c', undo) ↔ ∃ txout, c.unspent out.n = some txout ∧ c' = c.spent out.n ∧
        undo = c.undoFor txout (c.spent out.n).isPruned := by
  unfold spend
  cases hv : c.vout[out.n]? with
  | none => simp [unspent, hv]
  | some txout =>
    cases hn : txout.isNull with
    | true => simp [unspent, hv, hn, filter_some]
    | false =>
      have hu : c.unspent out.n = some txout := (unspent_eq_some_iff ..).mpr ⟨hv, hn⟩
      simp only [hn, hu, spent_length_eq_zero, Bool.false_eq_true, if_false, Option.some.injEq,
        Prod.mk.injEq, exists_eq_left']
      exact ⟨fun h => ⟨h.1.symm, h.2.symm⟩, fun h => ⟨h.1.symm, h.2.symm⟩⟩

end CCoins

/-- A `CCoins` outside a `CCoinsModifier`: cleaned up and with something left.
The destructor of the modifier and `Unserialize` both call `Cleanup`, and only
objects that are not pruned are written. -/
structure StoredCoins where
  coins : CCoins
  cleaned : coins.cleanup = coins
  nonempty : coins.vout ≠ []

namespace StoredCoins

@[ext] theorem ext {s t : StoredCoins} (h : s.coins = t.coins) : s = t := by
  cases s
  cases t
  simp only at h
  subst h
  rfl

instance : DecidableEq StoredCoins := fun s t =>
  decidable_of_iff (s.coins = t.coins) ⟨ext, fun h => h ▸ rfl⟩

theorem isPruned_coins (s : StoredCoins) : s.coins.isPruned = false := by
  rw [← Bool.not_eq_true, ← CCoins.cleanup_vout_eq_nil_iff, s.cleaned]
  exact s.nonempty

end StoredCoins

def CCoins.store (c : CCoins) : Option StoredCoins :=
  if h : c.cleanup.vout = [] then none else some ⟨c.cleanup, CCoins.cleanup_cleanup c, h⟩

namespace CCoins

theorem store_eq_none_iff (c : CCoins) : c.store = none ↔ c.isPruned = true := by
  rw [← cleanup_vout_eq_nil_iff]
  unfold store
  split_ifs with h
  · simp [h]
  · simp [h]

theorem store_eq_some_iff (c : CCoins) (s : StoredCoins) :
    c.store = some s ↔ c.isPruned = false ∧ s.coins = c.cleanup := by
  rw [← Bool.not_eq_true, ← cleanup_vout_eq_nil_iff]
  unfold store
  split_ifs with h
  · simp [h]
  · simp only [Option.some.injEq, h, not_false_eq_true, true_and]
    exact ⟨fun hs => hs ▸ rfl, fun hs => StoredCoins.ext hs.symm⟩

@[simp] theorem store_coins (s : StoredCoins) : s.coins.store = some s := by
  rw [store_eq_some_iff]
  exact ⟨s.isPruned_coins, s.cleaned.symm⟩

@[simp] theorem store_cleanup (c : CCoins) : c.cleanup.store = c.store := by
  simp only [store, cleanup_cleanup]

@[simp] theorem store_clear : clear.store = none := by
  rw [store_eq_none_iff]
  rfl

theorem store_map_abs (c : CCoins) :
    c.store.map (fun s => s.coins.abs) = if c.isPruned then none else some c.abs := by
  cases hp : c.isPruned with
  | true => simp [(store_eq_none_iff c).mpr hp]
  | false =>
    have hs : c.store ≠ none := by
      rw [Ne, store_eq_none_iff, hp]
      decide
    obtain ⟨s, hs⟩ := ne_none_iff_exists'.mp hs
    rw [hs]
    simp [((store_eq_some_iff c s).mp hs).2]

end CCoins

/-! ### A plain map of coins

The specification of every stack of views: a transaction is absent or holds
something unspent. -/

abbrev CoinsMap := uint256 → Option StoredCoins

namespace CoinsMap

variable (m : CoinsMap)

/-- The object an edit of `txid` starts from. -/
def coins (txid : uint256) : CCoins :=
  match m txid with
  | some s => s.coins
  | none => CCoins.clear

def modify (txid : uint256) (edit : CCoins → CCoins) : CoinsMap :=
  update m txid (edit (m.coins txid)).store

@[simp] theorem modify_self (txid : uint256) (edit : CCoins → CCoins) :
    m.modify txid edit txid = (edit (m.coins txid)).store := by
  simp [modify]

theorem modify_of_ne (txid x : uint256) (edit : CCoins → CCoins) (h : x ≠ txid) :
    m.modify txid edit x = m x := by
  simp [modify, h]

@[simp] theorem coins_store (txid : uint256) : (m.coins txid).store = m txid := by
  unfold coins
  cases m txid with
  | none => simp
  | some s => simp

theorem coins_modify_of_ne (txid x : uint256) (edit : CCoins → CCoins) (h : x ≠ txid) :
    (m.modify txid edit).coins x = m.coins x := by
  simp only [coins, modify_of_ne m txid x edit h]

theorem coins_modify_self (txid : uint256) (edit : CCoins → CCoins) :
    (m.modify txid edit).coins txid =
      if (edit (m.coins txid)).isPruned then CCoins.clear else (edit (m.coins txid)).cleanup := by
  rw [coins, modify_self]
  cases hp : (edit (m.coins txid)).isPruned with
  | true => simp [(CCoins.store_eq_none_iff _).mpr hp]
  | false =>
    have hne : (edit (m.coins txid)).store ≠ none := by
      rw [Ne, CCoins.store_eq_none_iff, hp]
      decide
    obtain ⟨s, hs⟩ := ne_none_iff_exists'.mp hne
    rw [hs]
    simpa using ((CCoins.store_eq_some_iff _ s).mp hs).2

theorem unspent_modify_self (txid : uint256) (edit : CCoins → CCoins) :
    ((m.modify txid edit).coins txid).unspent = (edit (m.coins txid)).unspent := by
  rw [coins_modify_self]
  split_ifs with hp
  · funext n
    rw [(CCoins.isPruned_iff _).mp hp n]
    rfl
  · exact CCoins.unspent_cleanup _

end CoinsMap

end Alqo
