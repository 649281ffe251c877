import Alqo.CoinsCache

/-!
# A stack of coin caches is one map (coins.cpp, test/coins_tests.cpp)

Layer 0 is the one the caller holds. Lower layers may be read at any time, but edited or flushed
only while no layer above caches anything, which is how the node uses them.
-/

namespace Alqo.CoinsStack
open Lib.Simulation Option

inductive CoinsOp where
  | getCoins (txid : uint256)
  | haveCoins (txid : uint256)
  | accessCoins (txid : uint256)
  | modifyCoins (txid : uint256) (edit : CCoins → CCoins)
  | flush

inductive CoinsRead where
  | coins (r : Option StoredCoins)
  | held (b : Bool)
  | done
deriving DecidableEq

def stepTop : CoinsOp → CoinsStack → Option (CoinsStack × CoinsRead)
  | .getCoins txid, s => some ((s.getCoins txid).2, .coins ((s.getCoins txid).1.bind CCoins.store))
  | .haveCoins txid, s => some ((s.haveCoins txid).2, .held (s.haveCoins txid).1)
  | .accessCoins txid, s =>
    some ((s.accessCoins txid).2, .coins ((s.accessCoins txid).1.bind CCoins.store))
  | .modifyCoins txid edit, .cache top base => some (modifyCoins top base txid edit, .done)
  | .flush, .cache top base => (flush top base).map fun s => (s, .done)
  -- the database offers neither
  | .modifyCoins _ _, .db base => some (.db base, .done)
  | .flush, .db base => some (.db base, .done)

def stepAt : Nat → CoinsOp → CoinsStack → Option (CoinsStack × CoinsRead)
  | 0, op, s => stepTop op s
  | k + 1, op, .cache top base => (stepAt k op base).map fun r => (.cache top r.1, r.2)
  | _ + 1, _, .db base => some (.db base, .done)

variable (s : CoinsStack) (m : CoinsMap)

def step (i : Nat × CoinsOp) : Option (CoinsStack × CoinsRead) := stepAt i.1 i.2 s

def plainStep (i : Nat × CoinsOp) : CoinsMap × CoinsRead :=
  match i.2 with
  | .getCoins txid => (m, .coins (m txid))
  | .haveCoins txid => (m, .held (m txid).isSome)
  | .accessCoins txid => (m, .coins (m txid))
  | .modifyCoins txid edit => (m.modify txid edit, .done)
  | .flush => (m, .done)

/-- Layer `k` exists and no layer above it caches anything. -/
def Unshadowed : Nat → CoinsStack → Prop
  | 0, .cache _ _ => True
  | k + 1, .cache top base => top.cacheCoins = ∅ ∧ Unshadowed k base
  | _, .db _ => False

def Allowed (i : Nat × CoinsOp) : Prop :=
  match i.2 with
  | .modifyCoins _ edit => EditOk edit ∧ Unshadowed i.1 s
  | .flush => Unshadowed i.1 s
  | _ => True

def Shows : Prop := s.Inv ∧ s.denote = m

theorem haveCoins_value (txid : uint256) (hs : s.Inv) :
    (s.haveCoins txid).1 = (s.denote txid).isSome ∧
      (s.haveCoins txid).2 = (s.fetchCoins txid).2 := by
  obtain ⟨-, -, hval, -, hclean⟩ := fetchCoins_spec s txid hs
  unfold haveCoins
  rw [← hval]
  cases hf : s.fetchCoins txid with
  | mk r s' =>
    rw [hf] at hclean
    cases r with
    | none => exact ⟨rfl, rfl⟩
    | some c =>
      refine ⟨?_, rfl⟩
      have hc : c.cleanup = c := hclean c rfl
      have hnil : c.vout = [] ↔ c.store = none := by
        rw [CCoins.store_eq_none_iff, ← CCoins.cleanup_vout_eq_nil_iff, hc]
      simp only [bind_some]
      cases hst : c.store with
      | none => simp [hnil.mpr hst]
      | some st =>
        have hne : c.vout ≠ [] := fun h => by simp [hnil.mp h] at hst
        simp [hne]

theorem stepTop_read (hs : Shows s m) (op : CoinsOp)
    (hop : ∀ txid edit, op ≠ .modifyCoins txid edit) (hfl : op ≠ .flush) :
    ∃ s', stepTop op s = some (s', (plainStep m (0, op)).2) ∧ s'.Inv ∧ Extends s s' ∧
      (plainStep m (0, op)).1 = m := by
  obtain ⟨hinv, rfl⟩ := hs
  cases op with
  | getCoins txid =>
    have hf := fetchCoins_spec s txid hinv
    exact ⟨_, by simp only [stepTop, plainStep, getCoins, hf.value], hf.inv, hf.ext, rfl⟩
  | accessCoins txid =>
    have hf := fetchCoins_spec s txid hinv
    exact ⟨_, by simp only [stepTop, plainStep, accessCoins, hf.value], hf.inv, hf.ext, rfl⟩
  | haveCoins txid =>
    have hf := fetchCoins_spec s txid hinv
    have hh := haveCoins_value s txid hinv
    exact ⟨_, by simp only [stepTop, plainStep, hh.1], hh.2 ▸ hf.inv, hh.2 ▸ hf.ext, rfl⟩
  | modifyCoins txid edit => exact absurd rfl (hop txid edit)
  | flush => exact absurd rfl hfl

theorem stepAt_read (k : Nat) (s : CoinsStack) (hs : s.Inv) (op : CoinsOp)
    (hop : ∀ txid edit, op ≠ .modifyCoins txid edit) (hfl : op ≠ .flush) :
    ∃ s' r, stepAt k op s = some (s', r) ∧ s'.Inv ∧ Extends s s' ∧
      (k = 0 → r = (plainStep s.denote (0, op)).2) := by
  induction k generalizing s with
  | zero =>
    obtain ⟨s', hstep, hinv, hext, -⟩ := stepTop_read s s.denote ⟨hs, rfl⟩ op hop hfl
    exact ⟨s', _, hstep, hinv, hext, fun _ => rfl⟩
  | succ k ih =>
    cases s with
    | db base => exact ⟨.db base, .done, rfl, trivial, ⟨rfl, fun _ h => h⟩, by simp⟩
    | cache top base =>
      obtain ⟨base', r, hstep, hinv, hext, -⟩ := ih base hs.1
      exact ⟨.cache top base', r, by simp [stepAt, hstep], ⟨hinv, hs.2.extend hext⟩,
        extends_cache hext, by simp⟩

theorem stepAt_write (k : Nat) (s : CoinsStack) (m : CoinsMap) (hs : Shows s m) (op : CoinsOp)
    (hop : (∃ txid edit, op = .modifyCoins txid edit ∧ EditOk edit) ∨ op = .flush)
    (hk : Unshadowed k s) :
    ∃ s', stepAt k op s = some (s', .done) ∧ Shows s' (plainStep m (k, op)).1 := by
  obtain ⟨hinv, rfl⟩ := hs
  induction k generalizing s with
  | zero =>
    cases s with
    | db base => exact absurd hk (by simp [Unshadowed])
    | cache top base =>
      rcases hop with ⟨txid, edit, rfl, hedit⟩ | rfl
      · exact ⟨_, rfl, modifyCoins_spec top base txid edit hedit hinv⟩
      · obtain ⟨base', hflush, hinv', hden⟩ := flush_spec top base hinv
        refine ⟨cache { top with cacheCoins := ∅ } base', by simp [stepAt, stepTop, hflush],
          ⟨hinv', ?_⟩, ?_⟩
        · intro x e hx
          simp at hx
        · rw [denote_cache_empty _ _ rfl, hden]
          rfl
  | succ k ih =>
    cases s with
    | db base => exact absurd hk (by simp [Unshadowed])
    | cache top base =>
      obtain ⟨hempty, hk⟩ := hk
      obtain ⟨base', hstep, hinv', hden⟩ := ih base hk hinv.1
      refine ⟨cache top base', by simp [stepAt, hstep], ⟨hinv', ?_⟩, ?_⟩
      · intro x e hx
        simp [hempty] at hx
      · rw [denote_cache_empty _ _ hempty, denote_cache_empty _ _ hempty, hden]
        rcases hop with ⟨txid, edit, rfl, -⟩ | rfl <;> rfl

theorem step_square (i : Nat × CoinsOp) (hs : Shows s m) (hi : Allowed s i) :
    ∃ s' r, step s i = some (s', r) ∧ Shows s' (plainStep m i).1 ∧
      (i.1 = 0 → r = (plainStep m i).2) := by
  obtain ⟨k, op⟩ := i
  have hread : (∀ txid edit, op ≠ .modifyCoins txid edit) → op ≠ .flush →
      ∃ s' r, stepAt k op s = some (s', r) ∧ Shows s' m ∧ (k = 0 → r = (plainStep m (0, op)).2) := by
    intro hop hfl
    obtain ⟨hinv, rfl⟩ := hs
    obtain ⟨s', r, hstep, hinv', hext, hr⟩ := stepAt_read k s hinv op hop hfl
    exact ⟨s', r, hstep, ⟨hinv', hext.denote⟩, hr⟩
  cases op with
  | modifyCoins txid edit =>
    obtain ⟨s', hstep, hshow⟩ :=
      stepAt_write k s m hs (.modifyCoins txid edit) (.inl ⟨txid, edit, rfl, hi.1⟩) hi.2
    exact ⟨s', .done, hstep, hshow, fun _ => rfl⟩
  | flush =>
    obtain ⟨s', hstep, hshow⟩ := stepAt_write k s m hs .flush (.inr rfl) hi
    exact ⟨s', .done, hstep, hshow, fun _ => rfl⟩
  | getCoins txid => exact hread (by simp) (by simp)
  | haveCoins txid => exact hread (by simp) (by simp)
  | accessCoins txid => exact hread (by simp) (by simp)

def depth : CoinsStack → Nat
  | .db _ => 0
  | .cache _ base => base.depth + 1

def bottom : CoinsStack → CCoinsViewDB
  | .db base => base
  | .cache _ base => base.bottom

def flushAll (n : Nat) : List (Nat × CoinsOp) := (List.range n).map fun k => (k, .flush)

/-- A stack of `n` newly constructed caches. -/
def newStack (d : CCoinsViewDB) : Nat → CoinsStack
  | 0 => .db d
  | n + 1 => .cache {} (newStack d n)

def BehavesLikeMap (ops : List (Nat × CoinsOp)) : Prop :=
  ∃ s' reads, run step s ops = some (s', reads) ∧
    Agree (fun i => i.1 = 0) ops reads (specRun plainStep s.denote ops).2 ∧
    ∃ s'' dones, run step s' (flushAll s'.depth) = some (s'', dones) ∧
      s''.bottom.coins = (specRun plainStep s.denote ops).1

theorem batchWrite_depth (s s' : CoinsStack) (mapCoins : CCoinsMap) (hashBlock : uint256)
    (h : s.batchWrite mapCoins hashBlock = some s') : s'.depth = s.depth := by
  cases s with
  | db base =>
    cases h
    rfl
  | cache top base =>
    simp only [batchWrite, map_eq_some_iff] at h
    obtain ⟨us, -, rfl⟩ := h
    rfl

theorem run_below (top : CCoinsViewCache) (base : CoinsStack) (ops : List (Nat × CoinsOp)) :
    run step (.cache top base) (ops.map fun i => (i.1 + 1, i.2)) =
      (run step base ops).map fun r => (.cache top r.1, r.2) := by
  induction ops generalizing base with
  | nil => rfl
  | cons i ops ih =>
    obtain ⟨k, op⟩ := i
    have hstep : step (.cache top base) (k + 1, op) =
        (step base (k, op)).map fun r => (.cache top r.1, r.2) := rfl
    simp only [List.map_cons, run, hstep]
    cases hs : step base (k, op) with
    | none => rfl
    | some r =>
      simp only [map_some, ih]
      cases run step r.1 ops with
      | none => rfl
      | some q => rfl

theorem flushAll_succ (n : Nat) :
    flushAll (n + 1) = (0, .flush) :: (flushAll n).map fun i => (i.1 + 1, i.2) := by
  simp [flushAll, List.range_succ_eq_map, List.map_map, Function.comp_def]

theorem run_flushAll (n : Nat) (s : CoinsStack) (hn : s.depth = n) (hs : s.Inv) :
    ∃ s' dones, run step s (flushAll n) = some (s', dones) ∧ s'.bottom.coins = s.denote := by
  induction n generalizing s with
  | zero =>
    cases s with
    | db base => exact ⟨.db base, [], rfl, rfl⟩
    | cache top base => simp [depth] at hn
  | succ n ih =>
    cases s with
    | db base => simp [depth] at hn
    | cache top base =>
      obtain ⟨base', hflush, hinv, hden⟩ := flush_spec top base hs
      have hdepth : base'.depth = n := by
        have hmap := hflush
        simp only [flush, map_eq_some_iff, cache.injEq, true_and] at hmap
        obtain ⟨b, hb, rfl⟩ := hmap
        rw [batchWrite_depth _ _ _ _ hb]
        simpa [depth] using hn
      obtain ⟨s', dones, hrun, hbot⟩ := ih base' hdepth hinv
      refine ⟨.cache { top with cacheCoins := ∅ } s', .done :: dones, ?_, ?_⟩
      · have hfirst : step (.cache top base) (0, .flush) =
            some (.cache { top with cacheCoins := ∅ } base', .done) := by
          simp [step, stepAt, stepTop, hflush]
        rw [flushAll_succ]
        simp only [run, hfirst, run_below, hrun, map_some]
      · rw [← hden, ← hbot]
        rfl

theorem newStack_shows (d : CCoinsViewDB) (n : Nat) : Shows (newStack d n) d.coins := by
  induction n with
  | zero => exact ⟨trivial, rfl⟩
  | succ n ih =>
    refine ⟨⟨ih.1, ?_⟩, ?_⟩
    · intro x e hx
      simp at hx
    · rw [newStack, denote_cache_empty _ _ rfl, ih.2]

def sevenHigh : StoredCoins := ⟨{ vout := [⟨5, [], -10⟩], nHeight := 7 }, rfl, by simp⟩

def oneRecord : CCoinsViewDB := { coins := fun x => if x = 1 then some sevenHigh else none }

/-- Any number of caches over any database behave like one plain map, in every
run that edits or flushes a lower layer only while nothing above caches
anything and whose edits treat a fully spent object as an empty one. -/
theorem newStack_behavesLikeMap (d : CCoinsViewDB) (n : Nat) (ops : List (Nat × CoinsOp))
    (hops : Admitted step Allowed (newStack d n) ops) :
    BehavesLikeMap (newStack d n) ops := by
  have hshow := newStack_shows d n
  obtain ⟨s', reads, hrun, hshow', hagree⟩ := run_simulates step plainStep Allowed
    (fun i => i.1 = 0) Shows step_square (newStack d n) (newStack d n).denote ops
    ⟨hshow.1, rfl⟩ hops
  obtain ⟨s'', dones, hflush, hbot⟩ := run_flushAll s'.depth s' rfl hshow'.1
  exact ⟨s', reads, hrun, hagree, s'', dones, hflush, hbot.trans hshow'.2⟩

def twoLayerRun : List (Nat × CoinsOp) :=
  [(0, .getCoins 1), (0, .modifyCoins 1 fun _ => { vout := [⟨3, [], -10⟩] }), (1, .haveCoins 2),
    (0, .flush), (1, .modifyCoins 2 fun _ => { vout := [⟨4, [], -10⟩] }), (1, .flush),
    (0, .accessCoins 2)]

theorem newStack_behavesLikeMap_two_layers :
    Admitted step Allowed (newStack oneRecord 2) twoLayerRun ∧
      BehavesLikeMap (newStack oneRecord 2) twoLayerRun := by
  have h : Admitted step Allowed (newStack oneRecord 2) twoLayerRun :=
    admitted_cons trivial rfl <| admitted_cons ⟨fun _ _ => rfl, trivial⟩ rfl <|
      admitted_cons trivial rfl <| admitted_cons trivial rfl <|
      admitted_cons ⟨fun _ _ => rfl, rfl, trivial⟩ rfl <| admitted_cons ⟨rfl, trivial⟩ rfl <|
      admitted_cons trivial rfl trivial
  exact ⟨h, newStack_behavesLikeMap oneRecord 2 _ h⟩

/-- No layer above layer `k` holds an unflushed change. -/
def Settled : Nat → CoinsStack → Bool
  | 0, _ => true
  | k + 1, .cache top base => (top.cacheCoins.entries.all fun e => !e.2.dirty) && Settled k base
  | _ + 1, .db _ => true

theorem not_behavesLikeMap_of_reads (ops : List (Nat × CoinsOp)) (reads : Option (List CoinsRead))
    (hrun : (run step s ops).map Prod.snd = reads)
    (hne : ∀ r ∈ reads, ¬ Agree (fun i => i.1 = 0) ops r (specRun plainStep s.denote ops).2) :
    ¬ BehavesLikeMap s ops := by
  rintro ⟨s', r, hs, hagree, -⟩
  rw [hs] at hrun
  exact hne r (by rw [← hrun]; rfl) hagree

def newVersion (c : CCoins) : CCoins := { c with nVersion := 2 }
def spendAll (c : CCoins) : CCoins := { c with vout := [] }
def refill (c : CCoins) : CCoins := { c with vout := [⟨5, [], -10⟩] }

def lostFresh : List (Nat × CoinsOp) :=
  [(0, .getCoins 1), (1, .flush), (0, .modifyCoins 1 newVersion), (0, .flush)]

def staleRead : List (Nat × CoinsOp) :=
  [(0, .getCoins 1), (1, .modifyCoins 1 newVersion), (0, .getCoins 1)]

def leftover : List (Nat × CoinsOp) :=
  [(0, .modifyCoins 1 spendAll), (0, .modifyCoins 1 refill), (0, .getCoins 1)]

/-- Keeping unflushed changes out of the layers above is not enough. -/
theorem settled_runs_differ :
    (Admitted step (fun s i => Settled i.1 s = true) (newStack oneRecord 2) lostFresh ∧
      run step (newStack oneRecord 2) lostFresh = none) ∧
    (Admitted step (fun s i => Settled i.1 s = true) (newStack oneRecord 2) staleRead ∧
      ¬ BehavesLikeMap (newStack oneRecord 2) staleRead) ∧
    (Admitted step (fun s i => Settled i.1 s = true) (newStack oneRecord 1) leftover ∧
      ¬ BehavesLikeMap (newStack oneRecord 1) leftover) := by
  refine ⟨⟨by decide, rfl⟩, ⟨by decide, ?_⟩, by decide, ?_⟩
  · exact not_behavesLikeMap_of_reads _ _
      (some [.coins (some sevenHigh), .done, .coins (some sevenHigh)]) (by decide) (by decide)
  · exact not_behavesLikeMap_of_reads _ _
      (some [.done, .done, .coins (some sevenHigh)]) (by decide) (by decide)

end Alqo.CoinsStack
