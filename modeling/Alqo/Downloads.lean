import Alqo.Primitives
import Alqo.Lib.KeyedList
import Alqo.Lib.Runs
import Alqo.Lib.Tally

/-!
# Blocks in flight (main.cpp)

Of `CNodeState` the fields for block download are kept, and `fDisconnect` of the `CNode` with them.
-/

namespace Alqo
open Lib.Runs Lib.Tally List AList Option

abbrev NodeId := Int

structure QueuedBlock where
  hash : uint256
  pindex : Option uint256
  nTime : Int
  nValidatedQueuedBefore : Int
  fValidatedHeaders : Bool
deriving DecidableEq

/- A list node keeps its address while others come and go; the iterators of
`mapBlocksInFlight` are addresses. -/
structure CNodeState where
  vBlocksInFlight : List (Nat × QueuedBlock) := []
  nBlocksInFlight : Int := 0
  nStallingSince : Int := 0
  fSyncStarted : Bool := false
  fPreferredDownload : Bool := false
  fDisconnect : Bool := false

structure Downloads where
  mapNodeState : AList fun _ : NodeId => CNodeState := ∅
  mapBlocksInFlight : AList fun _ : uint256 => NodeId × Nat := ∅
  nQueuedValidatedHeaders : Int := 0
  nPreferredDownload : Int := 0
  nSyncStarted : Int := 0
  /-- the address of the next list node -/
  fresh : Nat := 0

inductive DownloadEvent where
  | initializeNode (nodeid : NodeId)
  | finalizeNode (nodeid : NodeId)
  | updatePreferredDownload (nodeid : NodeId) (fPreferredDownload : Bool)
  | startSync (nodeid : NodeId)
  | markBlockAsInFlight (nodeid : NodeId) (hash : uint256) (pindex : Option uint256) (nTime : Int)
  | markBlockAsReceived (hash : uint256)
  | stall (staller : NodeId) (nNow : Int)
  | checkTimeouts (nodeid : NodeId) (nNow nTargetSpacing : Int)

def BLOCK_STALLING_TIMEOUT : Int := 2

def CNodeState.isLate (state : CNodeState) (nNow nTargetSpacing : Int) : Bool :=
  match state.vBlocksInFlight with
  | [] => false
  | (_, front) :: _ =>
    decide (front.nTime < nNow - 500000 * nTargetSpacing * (4 + front.nValidatedQueuedBefore))

def CNodeState.checkTimeouts (state : CNodeState) (nNow nTargetSpacing : Int) : CNodeState :=
  { state with fDisconnect := state.fDisconnect ||
      (state.nStallingSince != 0 &&
        decide (state.nStallingSince < nNow - 1000000 * BLOCK_STALLING_TIMEOUT)) ||
      state.isLate nNow nTargetSpacing }

def boolToInt (b : Bool) : Int := if b then 1 else 0

namespace Downloads

variable (s : Downloads) (nodeid : NodeId)

def modifyState (f : CNodeState → CNodeState) : Downloads :=
  match s.mapNodeState.lookup nodeid with
  | none => s
  | some state => { s with mapNodeState := s.mapNodeState.insert nodeid (f state) }

/- `InitializeNode`; `insert` leaves a peer that is there alone. -/
def initializeNode : Downloads :=
  match s.mapNodeState.lookup nodeid with
  | some _ => s
  | none => { s with mapNodeState := s.mapNodeState.insert nodeid {} }

def finalizeNode : Downloads :=
  match s.mapNodeState.lookup nodeid with
  | none => s
  | some state =>
    { s with
      nSyncStarted := s.nSyncStarted - boolToInt state.fSyncStarted
      mapBlocksInFlight := state.vBlocksInFlight.foldl (fun m entry => m.erase entry.2.hash)
        s.mapBlocksInFlight
      nPreferredDownload := s.nPreferredDownload - boolToInt state.fPreferredDownload
      mapNodeState := s.mapNodeState.erase nodeid }

def updatePreferredDownload (fPreferredDownload : Bool) :
    Downloads :=
  match s.mapNodeState.lookup nodeid with
  | none => s
  | some state =>
    { s with
      nPreferredDownload :=
        s.nPreferredDownload - boolToInt state.fPreferredDownload + boolToInt fPreferredDownload
      mapNodeState := s.mapNodeState.insert nodeid { state with fPreferredDownload } }

def startSync : Downloads :=
  match s.mapNodeState.lookup nodeid with
  | none => s
  | some state =>
    if state.fSyncStarted then s
    else
      { s with
        nSyncStarted := s.nSyncStarted + 1
        mapNodeState := s.mapNodeState.insert nodeid { state with fSyncStarted := true } }

/- `MarkBlockAsReceived`; the iterator is read before its node goes. -/
def markBlockAsReceived (hash : uint256) : Downloads :=
  match s.mapBlocksInFlight.lookup hash with
  | none => s
  | some (nodeid, it) =>
    match s.mapNodeState.lookup nodeid with
    | none => s
    | some state =>
      let entry := Lib.KeyedList.find Prod.fst it state.vBlocksInFlight
      { s with
        nQueuedValidatedHeaders := s.nQueuedValidatedHeaders -
          boolToInt ((entry.map fun e => e.2.fValidatedHeaders).getD false)
        mapNodeState := s.mapNodeState.insert nodeid { state with
          vBlocksInFlight := state.vBlocksInFlight.filter fun e => e.1 ≠ it
          nBlocksInFlight := state.nBlocksInFlight - 1
          nStallingSince := 0 }
        mapBlocksInFlight := s.mapBlocksInFlight.erase hash }

/- The second half of `MarkBlockAsInFlight`. -/
def enqueue (state : CNodeState) (hash : uint256) (pindex : Option uint256) (nTime : Int) :
    Downloads :=
  let newentry : QueuedBlock := ⟨hash, pindex, nTime, s.nQueuedValidatedHeaders, pindex.isSome⟩
  { s with
    nQueuedValidatedHeaders := s.nQueuedValidatedHeaders + boolToInt newentry.fValidatedHeaders
    mapNodeState := s.mapNodeState.insert nodeid { state with
      vBlocksInFlight := state.vBlocksInFlight ++ [(s.fresh, newentry)]
      nBlocksInFlight := state.nBlocksInFlight + 1 }
    mapBlocksInFlight := s.mapBlocksInFlight.insert hash (nodeid, s.fresh)
    fresh := s.fresh + 1 }

/- `MarkBlockAsInFlight`; it asserts that the peer is there, and is
called for the peer that messages are sent to. -/
def markBlockAsInFlight (hash : uint256) (pindex : Option uint256) (nTime : Int) : Downloads :=
  match s.mapNodeState.lookup nodeid with
  | none => s
  | some _ =>
    let s := s.markBlockAsReceived hash
    match s.mapNodeState.lookup nodeid with
    | none => s
    | some state => s.enqueue nodeid state hash pindex nTime

def stall (staller : NodeId) (nNow : Int) : Downloads :=
  s.modifyState staller fun state =>
    if state.nStallingSince = 0 then { state with nStallingSince := nNow } else state

def step : DownloadEvent → Downloads
  | .initializeNode nodeid => s.initializeNode nodeid
  | .finalizeNode nodeid => s.finalizeNode nodeid
  | .updatePreferredDownload nodeid fPreferredDownload =>
    s.updatePreferredDownload nodeid fPreferredDownload
  | .startSync nodeid => s.startSync nodeid
  | .markBlockAsInFlight nodeid hash pindex nTime => s.markBlockAsInFlight nodeid hash pindex nTime
  | .markBlockAsReceived hash => s.markBlockAsReceived hash
  | .stall staller nNow => s.stall staller nNow
  | .checkTimeouts nodeid nNow nTargetSpacing =>
    s.modifyState nodeid fun state => state.checkTimeouts nNow nTargetSpacing

def Holds (it : Nat) (entry : QueuedBlock) : Prop :=
  ∃ state, s.mapNodeState.lookup nodeid = some state ∧ (it, entry) ∈ state.vBlocksInFlight

end Downloads

def CNodeState.validated (state : CNodeState) : Int :=
  (state.vBlocksInFlight.countP fun e => e.2.fValidatedHeaders : Nat)

namespace Downloads

def validated (s : Downloads) : Int := tally (fun _ state => state.validated) s.mapNodeState

structure Listed (s : Downloads) : Prop where
  flight : ∀ hash nodeid it, s.mapBlocksInFlight.lookup hash = some (nodeid, it) ↔
    ∃ entry, s.Holds nodeid it entry ∧ entry.hash = hash
  nodup : ∀ nodeid state, s.mapNodeState.lookup nodeid = some state →
    (state.vBlocksInFlight.map Prod.fst).Nodup
  fresh : ∀ nodeid it entry, s.Holds nodeid it entry → it < s.fresh
  length : ∀ nodeid state, s.mapNodeState.lookup nodeid = some state →
    state.nBlocksInFlight = state.vBlocksInFlight.length
  preferred : s.nPreferredDownload =
    tally (fun _ state => boolToInt state.fPreferredDownload) s.mapNodeState
  sync : s.nSyncStarted = tally (fun _ state => boolToInt state.fSyncStarted) s.mapNodeState

variable {s s' : Downloads} {nodeid n : NodeId} {state state' : CNodeState}

theorem holds_iff {it : Nat} {entry : QueuedBlock} : s.Holds n it entry ↔
    (it, entry) ∈ ((s.mapNodeState.lookup n).getD {}).vBlocksInFlight := by
  unfold Holds
  cases s.mapNodeState.lookup n <;> simp

theorem listed_start : Listed {} where
  flight hash nodeid it := by simp [Holds]
  nodup nodeid state h := by cases h
  fresh nodeid it entry h := by simp [Holds] at h
  length nodeid state h := by cases h
  preferred := rfl
  sync := rfl

theorem holds_insert (hmap : s'.mapNodeState = s.mapNodeState.insert nodeid state) (n : NodeId)
    (it : Nat) (entry : QueuedBlock) : s'.Holds n it entry ↔
      (n = nodeid ∧ (it, entry) ∈ state.vBlocksInFlight) ∨ (n ≠ nodeid ∧ s.Holds n it entry) := by
  unfold Holds
  rw [hmap]
  by_cases hn : n = nodeid
  · subst hn
    simp
  · rw [lookup_insert_ne hn]
    simp [hn]

theorem lookup_insert_cases {st : CNodeState}
    (h : (s.mapNodeState.insert nodeid state).lookup n = some st) :
    (n = nodeid ∧ st = state) ∨ (n ≠ nodeid ∧ s.mapNodeState.lookup n = some st) := by
  by_cases hn : n = nodeid
  · subst hn
    rw [lookup_insert] at h
    exact .inl ⟨rfl, (Option.some.inj h).symm⟩
  · rw [lookup_insert_ne hn] at h
    exact .inr ⟨hn, h⟩

theorem known_peer (hs : s.mapNodeState.lookup nodeid = some state) :
    (s.mapNodeState.lookup nodeid).getD {} = state := by
  rw [hs]
  rfl

def Keeps (s s' : Downloads) : Prop :=
  s'.Listed ∧ s'.nQueuedValidatedHeaders - s'.validated = s.nQueuedValidatedHeaders - s.validated

section
variable (h : s.Listed)
include h

section
variable (hs : (s.mapNodeState.lookup nodeid).getD {} = state)
include hs

/-- One entry of `mapNodeState` is replaced; a peer that is missing counts as a new one. -/
theorem Listed.insert (hmap : s'.mapNodeState = s.mapNodeState.insert nodeid state')
    (hflight : ∀ hash n it, s'.mapBlocksInFlight.lookup hash = some (n, it) ↔
      ∃ entry, s'.Holds n it entry ∧ entry.hash = hash)
    (hfresh : ∀ n it entry, s'.Holds n it entry → it < s'.fresh)
    (hnodup : (state'.vBlocksInFlight.map Prod.fst).Nodup)
    (hlength : state'.nBlocksInFlight = state'.vBlocksInFlight.length)
    (hpref : s'.nPreferredDownload =
      s.nPreferredDownload - boolToInt state.fPreferredDownload + boolToInt state'.fPreferredDownload)
    (hsync : s'.nSyncStarted =
      s.nSyncStarted - boolToInt state.fSyncStarted + boolToInt state'.fSyncStarted)
    (hqueued : s'.nQueuedValidatedHeaders - state'.validated =
      s.nQueuedValidatedHeaders - state.validated) :
    Keeps s s' := by
  subst hs
  refine ⟨⟨hflight, fun n st hst => ?_, hfresh, fun n st hst => ?_, ?_, ?_⟩, ?_⟩
  · rw [hmap] at hst
    rcases lookup_insert_cases hst with ⟨-, rfl⟩ | ⟨-, hst⟩
    · exact hnodup
    · exact h.nodup n st hst
  · rw [hmap] at hst
    rcases lookup_insert_cases hst with ⟨-, rfl⟩ | ⟨-, hst⟩
    · exact hlength
    · exact h.length n st hst
  · rw [hpref, hmap, tally_insert_getD (d := {}) rfl, h.preferred]
    omega
  · rw [hsync, hmap, tally_insert_getD (d := {}) rfl, h.sync]
    omega
  · rw [validated, hmap, tally_insert_getD (d := {}) rfl, validated]
    omega

theorem Listed.peer : (state.vBlocksInFlight.map Prod.fst).Nodup ∧
      state.nBlocksInFlight = state.vBlocksInFlight.length := by
  cases hcase : s.mapNodeState.lookup nodeid with
  | none =>
    rw [hcase] at hs
    cases hs
    exact ⟨nodup_nil, rfl⟩
  | some old =>
    rw [hcase] at hs
    cases hs
    exact ⟨h.nodup nodeid _ hcase, h.length nodeid _ hcase⟩

theorem Listed.replace (hmap : s'.mapNodeState = s.mapNodeState.insert nodeid state')
    (hlist : state'.vBlocksInFlight = state.vBlocksInFlight)
    (hcount : state'.nBlocksInFlight = state.nBlocksInFlight)
    (hflight : s'.mapBlocksInFlight = s.mapBlocksInFlight) (hfresh : s'.fresh = s.fresh)
    (hqueued : s'.nQueuedValidatedHeaders = s.nQueuedValidatedHeaders)
    (hpref : s'.nPreferredDownload =
      s.nPreferredDownload - boolToInt state.fPreferredDownload + boolToInt state'.fPreferredDownload)
    (hsync : s'.nSyncStarted =
      s.nSyncStarted - boolToInt state.fSyncStarted + boolToInt state'.fSyncStarted) :
    Keeps s s' := by
  have hholds : ∀ n it entry, s'.Holds n it entry ↔ s.Holds n it entry := by
    intro n it entry
    rw [holds_insert hmap, hlist]
    by_cases hn : n = nodeid
    · subst hn
      simp [holds_iff, hs]
    · simp [hn]
  obtain ⟨hnodup, hlength⟩ := h.peer hs
  refine h.insert hs hmap (fun hash n it => ?_) (fun n it entry hn => ?_) (hlist ▸ hnodup) ?_
    hpref hsync ?_
  · rw [hflight, h.flight]
    simp only [hholds]
  · rw [hfresh]
    exact h.fresh n it entry ((hholds n it entry).mp hn)
  · rw [hlist, hcount, hlength]
  · rw [hqueued, CNodeState.validated, CNodeState.validated, hlist]

end

theorem Listed.modifyState (nodeid : NodeId) (f : CNodeState → CNodeState)
    (hf : ∀ state, (f state).vBlocksInFlight = state.vBlocksInFlight ∧
      (f state).nBlocksInFlight = state.nBlocksInFlight ∧
      (f state).fPreferredDownload = state.fPreferredDownload ∧
      (f state).fSyncStarted = state.fSyncStarted) :
    Keeps s (s.modifyState nodeid f) := by
  unfold Downloads.modifyState
  cases hs : s.mapNodeState.lookup nodeid with
  | none => exact ⟨h, rfl⟩
  | some state =>
    obtain ⟨hlist, hcount, hpref, hsync⟩ := hf state
    refine h.replace (known_peer hs) rfl hlist hcount rfl rfl rfl ?_ ?_
    · rw [hpref]
      exact (Int.sub_add_cancel _ _).symm
    · rw [hsync]
      exact (Int.sub_add_cancel _ _).symm

theorem Listed.updatePreferredDownload (nodeid : NodeId) (fPreferredDownload : Bool) :
    Keeps s (s.updatePreferredDownload nodeid fPreferredDownload) := by
  unfold Downloads.updatePreferredDownload
  cases hs : s.mapNodeState.lookup nodeid with
  | none => exact ⟨h, rfl⟩
  | some state =>
    exact h.replace (known_peer hs) rfl rfl rfl rfl rfl rfl rfl (Int.sub_add_cancel _ _).symm

theorem Listed.startSync (nodeid : NodeId) : Keeps s (s.startSync nodeid) := by
  unfold Downloads.startSync
  cases hs : s.mapNodeState.lookup nodeid with
  | none => exact ⟨h, rfl⟩
  | some state =>
    dsimp only
    split_ifs with hstarted
    · exact ⟨h, rfl⟩
    · refine h.replace (known_peer hs) rfl rfl rfl rfl rfl rfl (Int.sub_add_cancel _ _).symm ?_
      rw [Bool.not_eq_true] at hstarted
      rw [hstarted]
      exact congrArg (· + 1) (Int.sub_zero _).symm

theorem Listed.initializeNode (nodeid : NodeId) : Keeps s (s.initializeNode nodeid) := by
  unfold Downloads.initializeNode
  cases hs : s.mapNodeState.lookup nodeid with
  | some state => exact ⟨h, rfl⟩
  | none =>
    exact h.replace (by rw [hs]; rfl) rfl (rfl : _ = CNodeState.vBlocksInFlight {}) rfl rfl rfl rfl
      (Int.sub_add_cancel _ _).symm (Int.sub_add_cancel _ _).symm

end

theorem lookup_foldl_erase (l : List (Nat × QueuedBlock))
    (m : AList fun _ : uint256 => NodeId × Nat) (hash : uint256) :
    (l.foldl (fun m entry => m.erase entry.2.hash) m).lookup hash =
      if hash ∈ l.map (fun e => e.2.hash) then none else m.lookup hash := by
  induction l generalizing m with
  | nil => simp
  | cons e l ih =>
    rw [foldl_cons, ih, map_cons]
    by_cases hmem : hash ∈ l.map fun e => e.2.hash
    · rw [if_pos hmem, if_pos (mem_cons_of_mem _ hmem)]
    · rw [if_neg hmem]
      by_cases he : hash = e.2.hash
      · rw [he, lookup_erase, if_pos mem_cons_self]
      · rw [lookup_erase_ne he, if_neg (not_mem_cons_of_ne_of_not_mem he hmem)]

section
variable (h : s.Listed)
include h

theorem Listed.unique {n' : NodeId} {it it' : Nat} {entry entry' : QueuedBlock}
    (hn : s.Holds n it entry) (hn' : s.Holds n' it' entry') (heq : entry.hash = entry'.hash) :
    n = n' ∧ it = it' := by
  have hone := (h.flight entry.hash n it).mpr ⟨entry, hn, rfl⟩
  have htwo := (h.flight entry.hash n' it').mpr ⟨entry', hn', heq.symm⟩
  have hpair := Option.some.inj (hone.symm.trans htwo)
  exact ⟨congrArg Prod.fst hpair, congrArg Prod.snd hpair⟩

theorem Listed.finalizeNode (hs : s.mapNodeState.lookup nodeid = some state) :
    (s.finalizeNode nodeid).Listed ∧
      s.validated = state.validated + (s.finalizeNode nodeid).validated ∧
      (s.finalizeNode nodeid).nQueuedValidatedHeaders = s.nQueuedValidatedHeaders := by
  unfold Downloads.finalizeNode
  rw [hs]
  have hlookup : ∀ n st, (s.mapNodeState.erase nodeid).lookup n = some st ↔
      n ≠ nodeid ∧ s.mapNodeState.lookup n = some st := by
    intro n st
    by_cases hn : n = nodeid
    · rw [hn, lookup_erase]
      simp
    · rw [lookup_erase_ne hn]
      simp [hn]
  refine ⟨⟨?_, ?_, ?_, ?_, ?_, ?_⟩, tally_erase hs, rfl⟩
  · intro hash n it
    rw [lookup_foldl_erase]
    constructor
    · intro hfound
      split_ifs at hfound with hmem
      obtain ⟨entry, ⟨st, hst, hentry⟩, hhash⟩ := (h.flight hash n it).mp hfound
      have hn : n ≠ nodeid := by
        rintro rfl
        rw [hs] at hst
        cases hst
        exact hmem (mem_map.mpr ⟨(it, entry), hentry, hhash⟩)
      exact ⟨entry, ⟨st, (hlookup n st).mpr ⟨hn, hst⟩, hentry⟩, hhash⟩
    · rintro ⟨entry, ⟨st, hst, hentry⟩, hhash⟩
      obtain ⟨hn, hst⟩ := (hlookup n st).mp hst
      have hheld : s.Holds n it entry := ⟨st, hst, hentry⟩
      rw [if_neg]
      · exact (h.flight hash n it).mpr ⟨entry, hheld, hhash⟩
      · intro hmem
        obtain ⟨⟨it', entry'⟩, hentry', hhash'⟩ := mem_map.mp hmem
        have hother : s.Holds nodeid it' entry' := ⟨state, hs, hentry'⟩
        exact hn (h.unique hheld hother (hhash.trans hhash'.symm)).1
  · intro n st hst
    exact h.nodup n st ((hlookup n st).mp hst).2
  · rintro n it entry ⟨st, hst, hentry⟩
    exact h.fresh n it entry ⟨st, ((hlookup n st).mp hst).2, hentry⟩
  · intro n st hst
    exact h.length n st ((hlookup n st).mp hst).2
  · have htally := tally_erase (f := fun _ state => boolToInt state.fPreferredDownload) hs
    dsimp only at htally ⊢
    rw [h.preferred]
    omega
  · have htally := tally_erase (f := fun _ state => boolToInt state.fSyncStarted) hs
    dsimp only at htally ⊢
    rw [h.sync]
    omega

structure Received (s s' : Downloads) (hash : uint256) : Prop where
  listed : s'.Listed
  surplus : s'.nQueuedValidatedHeaders - s'.validated = s.nQueuedValidatedHeaders - s.validated
  gone : s'.mapBlocksInFlight.lookup hash = none
  peers : ∀ n, (s'.mapNodeState.lookup n).isSome = (s.mapNodeState.lookup n).isSome

theorem Listed.markBlockAsReceived (hash : uint256) :
    Received s (s.markBlockAsReceived hash) hash := by
  unfold Downloads.markBlockAsReceived
  cases hflight : s.mapBlocksInFlight.lookup hash with
  | none => exact ⟨h, rfl, hflight, fun _ => rfl⟩
  | some found =>
  obtain ⟨nodeid, it⟩ := found
  obtain ⟨entry, ⟨state, hs, hentry⟩, hhash⟩ := (h.flight hash nodeid it).mp hflight
  have hheld : s.Holds nodeid it entry := ⟨state, hs, hentry⟩
  have hnodup := h.nodup nodeid state hs
  have hfind : Lib.KeyedList.find Prod.fst it state.vBlocksInFlight = some (it, entry) :=
    Lib.KeyedList.find_of_mem hnodup hentry
  have hperm : state.vBlocksInFlight.Perm
      ((it, entry) :: state.vBlocksInFlight.filter fun e => e.1 ≠ it) :=
    Lib.KeyedList.perm_remove hnodup hentry
  dsimp only
  rw [hs]
  dsimp only
  rw [hfind, map_some, getD_some]
  set t : Downloads := { s with
    nQueuedValidatedHeaders := s.nQueuedValidatedHeaders - boolToInt entry.fValidatedHeaders
    mapNodeState := s.mapNodeState.insert nodeid { state with
      vBlocksInFlight := state.vBlocksInFlight.filter fun e => e.1 ≠ it
      nBlocksInFlight := state.nBlocksInFlight - 1
      nStallingSince := 0 }
    mapBlocksInFlight := s.mapBlocksInFlight.erase hash } with ht
  have hholds : ∀ n it' entry', t.Holds n it' entry' ↔ s.Holds n it' entry' ∧ entry'.hash ≠ hash := by
    intro n it' entry'
    rw [holds_insert rfl, mem_filter, decide_eq_true_eq]
    constructor
    · rintro (⟨rfl, hmem, hne⟩ | ⟨hn, hold⟩)
      · refine ⟨⟨state, hs, hmem⟩, ?_⟩
        intro heq
        exact hne (h.unique ⟨state, hs, hmem⟩ hheld (heq.trans hhash.symm)).2
      · refine ⟨hold, ?_⟩
        intro heq
        exact hn (h.unique hold hheld (heq.trans hhash.symm)).1
    · rintro ⟨hold, hne⟩
      by_cases hn : n = nodeid
      · subst hn
        rw [holds_iff, hs] at hold
        refine .inl ⟨rfl, hold, ?_⟩
        intro hit
        have hinj := inj_on_of_nodup_map hnodup hold hentry hit
        cases hinj
        exact hne hhash
      · exact .inr ⟨hn, hold⟩
  have hkeeps : Keeps s t := by
    refine h.insert (known_peer hs) rfl (fun hash' n it' => ?_)
      (fun n it' entry' hn => ?_) (hnodup.sublist (filter_sublist.map _)) ?_
      (Int.sub_add_cancel _ _).symm (Int.sub_add_cancel _ _).symm ?_
    · simp only [hholds]
      by_cases heq : hash' = hash
      · rw [heq, lookup_erase]
        constructor
        · intro hnone
          cases hnone
        · rintro ⟨entry', ⟨-, hne⟩, hsame⟩
          exact absurd hsame hne
      · rw [lookup_erase_ne heq, h.flight]
        constructor
        · rintro ⟨entry', hold, hsame⟩
          exact ⟨entry', ⟨hold, hsame ▸ heq⟩, hsame⟩
        · rintro ⟨entry', ⟨hold, -⟩, hsame⟩
          exact ⟨entry', hold, hsame⟩
    · exact h.fresh n it' entry' ((hholds n it' entry').mp hn).1
    · have hlen := hperm.length_eq
      have hcount := h.length nodeid state hs
      rw [length_cons] at hlen
      dsimp only
      omega
    · have hcount := hperm.countP_eq fun e => e.2.fValidatedHeaders
      rw [countP_cons] at hcount
      simp only [ht, CNodeState.validated, hcount, boolToInt]
      split_ifs <;> push_cast <;> omega
  refine ⟨hkeeps.1, hkeeps.2, lookup_erase _ _, fun n => ?_⟩
  by_cases hn : n = nodeid
  · rw [hn, lookup_insert, hs]
    rfl
  · rw [lookup_insert_ne hn]

theorem Listed.enqueue (hs : s.mapNodeState.lookup nodeid = some state) {hash : uint256}
    (hgone : s.mapBlocksInFlight.lookup hash = none) (pindex : Option uint256) (nTime : Int) :
    Keeps s (s.enqueue nodeid state hash pindex nTime) := by
  have hnew : ∀ n it entry, s.Holds n it entry → entry.hash ≠ hash := by
    intro n it entry hold heq
    have hfound := (h.flight hash n it).mpr ⟨entry, hold, heq⟩
    rw [hgone] at hfound
    cases hfound
  have hholds : ∀ n it entry, (s.enqueue nodeid state hash pindex nTime).Holds n it entry ↔
      s.Holds n it entry ∨ (n = nodeid ∧ it = s.fresh ∧
        entry = ⟨hash, pindex, nTime, s.nQueuedValidatedHeaders, pindex.isSome⟩) := by
    intro n it entry
    rw [holds_insert rfl, mem_append, mem_singleton, Prod.mk.injEq]
    by_cases hn : n = nodeid
    · subst hn
      simp [holds_iff, hs]
    · simp [hn]
  refine h.insert (known_peer hs) rfl (fun hash' n it => ?_) (fun n it entry hold => ?_) ?_ ?_
    (Int.sub_add_cancel _ _).symm (Int.sub_add_cancel _ _).symm ?_
  · simp only [hholds]
    dsimp only [Downloads.enqueue]
    by_cases heq : hash' = hash
    · subst heq
      rw [lookup_insert]
      constructor
      · intro hfound
        cases hfound
        exact ⟨_, .inr ⟨rfl, rfl, rfl⟩, rfl⟩
      · rintro ⟨entry, hold | ⟨rfl, rfl, -⟩, hsame⟩
        · exact absurd hsame (hnew n it entry hold)
        · rfl
    · rw [lookup_insert_ne heq, h.flight]
      constructor
      · rintro ⟨entry, hold, hsame⟩
        exact ⟨entry, .inl hold, hsame⟩
      · rintro ⟨entry, hold | ⟨-, -, rfl⟩, hsame⟩
        · exact ⟨entry, hold, hsame⟩
        · exact absurd hsame.symm heq
  · show it < s.fresh + 1
    rcases (hholds n it entry).mp hold with hold | ⟨-, hit, -⟩
    · have hlt := h.fresh n it entry hold
      omega
    · omega
  · rw [map_append, map_singleton, nodup_append]
    refine ⟨h.nodup nodeid state hs, nodup_singleton _, ?_⟩
    intro it hit it' hit' heq
    obtain ⟨⟨it'', entry⟩, hmem, hfst⟩ := mem_map.mp hit
    have hlt := h.fresh nodeid it'' entry ⟨state, hs, hmem⟩
    rw [mem_singleton] at hit'
    omega
  · have hcount := h.length nodeid state hs
    dsimp only
    rw [length_append, length_singleton]
    omega
  · dsimp only [Downloads.enqueue, CNodeState.validated]
    rw [countP_append, countP_singleton]
    unfold boolToInt
    split_ifs <;> push_cast <;> omega

theorem Listed.markBlockAsInFlight (nodeid : NodeId) (hash : uint256) (pindex : Option uint256)
    (nTime : Int) : Keeps s (s.markBlockAsInFlight nodeid hash pindex nTime) := by
  unfold Downloads.markBlockAsInFlight
  cases hs : s.mapNodeState.lookup nodeid with
  | none => exact ⟨h, rfl⟩
  | some old =>
  have hreceived := h.markBlockAsReceived hash
  dsimp only
  cases hs' : (s.markBlockAsReceived hash).mapNodeState.lookup nodeid with
  | none => exact ⟨hreceived.listed, hreceived.surplus⟩
  | some state =>
    obtain ⟨hlisted, hsurplus⟩ := hreceived.listed.enqueue hs' hreceived.gone pindex nTime
    exact ⟨hlisted, hsurplus.trans hreceived.surplus⟩

def leavesValidated (s : Downloads) : DownloadEvent → Int
  | .finalizeNode nodeid => ((s.mapNodeState.lookup nodeid).map CNodeState.validated).getD 0
  | _ => 0

omit h in
theorem Keeps.add_zero (h : Keeps s s') : s'.Listed ∧ s'.nQueuedValidatedHeaders - s'.validated =
    s.nQueuedValidatedHeaders - s.validated + 0 :=
  ⟨h.1, h.2.trans (Int.add_zero _).symm⟩

theorem Listed.step (e : DownloadEvent) : (s.step e).Listed ∧
    (s.step e).nQueuedValidatedHeaders - (s.step e).validated =
      s.nQueuedValidatedHeaders - s.validated + s.leavesValidated e := by
  cases e with
  | initializeNode nodeid => exact (h.initializeNode nodeid).add_zero
  | finalizeNode nodeid =>
    cases hs : s.mapNodeState.lookup nodeid with
    | none =>
      dsimp only [Downloads.step, leavesValidated, Downloads.finalizeNode]
      rw [hs]
      exact ⟨h, (Int.add_zero _).symm⟩
    | some state =>
      obtain ⟨hlisted, hvalidated, hqueued⟩ := h.finalizeNode hs
      refine ⟨hlisted, ?_⟩
      dsimp only [Downloads.step, leavesValidated]
      rw [hqueued, hvalidated, hs, map_some, getD_some]
      omega
  | updatePreferredDownload nodeid fPreferredDownload =>
    exact (h.updatePreferredDownload nodeid fPreferredDownload).add_zero
  | startSync nodeid => exact (h.startSync nodeid).add_zero
  | markBlockAsInFlight nodeid hash pindex nTime =>
    exact (h.markBlockAsInFlight nodeid hash pindex nTime).add_zero
  | markBlockAsReceived hash =>
    have hreceived := h.markBlockAsReceived hash
    exact Keeps.add_zero ⟨hreceived.listed, hreceived.surplus⟩
  | stall staller nNow =>
    refine (h.modifyState staller _ fun state => ?_).add_zero
    split_ifs <;> exact ⟨rfl, rfl, rfl, rfl⟩
  | checkTimeouts nodeid nNow nTargetSpacing =>
    have hsame := h.modifyState nodeid (fun state => state.checkTimeouts nNow nTargetSpacing)
      fun _ => ⟨rfl, rfl, rfl, rfl⟩
    exact hsame.add_zero

def Lists (s : Downloads) (nodeid : NodeId) (hash : uint256) : Prop :=
  ∃ it entry, s.Holds nodeid it entry ∧ entry.hash = hash

/-- The bookkeeping is exact. A block has one entry in `mapBlocksInFlight`, which names
one peer. -/
structure Exact (s : Downloads) : Prop where
  flight : ∀ hash nodeid, (s.mapBlocksInFlight.lookup hash).map Prod.fst = some nodeid ↔
    s.Lists nodeid hash
  length : ∀ nodeid state, s.mapNodeState.lookup nodeid = some state →
    state.nBlocksInFlight = state.vBlocksInFlight.length
  validated : s.nQueuedValidatedHeaders = s.validated
  idle : s.mapNodeState = ∅ → s.mapBlocksInFlight = ∅ ∧ s.nQueuedValidatedHeaders = 0 ∧
    s.nPreferredDownload = 0 ∧ s.nSyncStarted = 0

theorem Listed.empty (hpeers : s.mapNodeState = ∅) : s.mapBlocksInFlight = ∅ := by
  have hnone : ∀ hash, s.mapBlocksInFlight.lookup hash = none := by
    intro hash
    cases hfound : s.mapBlocksInFlight.lookup hash with
    | none => rfl
    | some found =>
      obtain ⟨entry, ⟨state, hs, -⟩, -⟩ := (h.flight hash found.1 found.2).mp hfound
      rw [hpeers] at hs
      cases hs
  apply AList.ext
  cases hentries : s.mapBlocksInFlight.entries with
  | nil => rfl
  | cons e rest =>
    have hmem : e ∈ s.mapBlocksInFlight.entries := hentries ▸ mem_cons_self
    have hfound := mem_lookup_iff.mpr hmem
    rw [hnone e.1] at hfound
    cases hfound

theorem Listed.exact_iff : s.Exact ↔ s.nQueuedValidatedHeaders = s.validated := by
  constructor
  · exact fun hexact => hexact.validated
  · intro hvalidated
    refine ⟨?_, h.length, hvalidated, ?_⟩
    · intro hash nodeid
      constructor
      · intro hfound
        obtain ⟨⟨n, it⟩, hlookup, rfl⟩ := map_eq_some_iff.mp hfound
        obtain ⟨entry, hheld, hhash⟩ := (h.flight hash n it).mp hlookup
        exact ⟨it, entry, hheld, hhash⟩
      · rintro ⟨it, entry, hheld, hhash⟩
        rw [(h.flight hash nodeid it).mpr ⟨entry, hheld, hhash⟩]
        rfl
    · intro hpeers
      refine ⟨h.empty hpeers, ?_, ?_, ?_⟩
      · rw [hvalidated, Downloads.validated, hpeers, tally_empty]
      · rw [h.preferred, hpeers, tally_empty]
      · rw [h.sync, hpeers, tally_empty]

end

/-- The bookkeeping stays exact over a run just if no peer leaves while a block with a
validated header is in flight from it: `FinalizeNode` forgets the requests of the peer
without taking them off `nQueuedValidatedHeaders`. -/
theorem downloads_exact_iff (events : List DownloadEvent) : Always step Exact {} events ↔
      Along step (fun s e => ∀ nodeid state, e = .finalizeNode nodeid →
        s.mapNodeState.lookup nodeid = some state →
        ∀ entry ∈ state.vBlocksInFlight, entry.2.fValidatedHeaders = false) {} events := by
  have hbase : ∀ s e, Listed s → Listed (step s e) := fun s e h => (h.step e).1
  refine always_iff_along hbase ?_ {} events listed_start (listed_start.exact_iff.mpr rfl)
  intro s e h hexact
  obtain ⟨hlisted, hsurplus⟩ := h.step e
  have hvalidated := hexact.validated
  have hleaves : (step s e).Exact ↔ s.leavesValidated e = 0 := by
    rw [hlisted.exact_iff]
    omega
  rw [hleaves]
  cases e with
  | finalizeNode nodeid =>
    dsimp only [leavesValidated]
    cases hs : s.mapNodeState.lookup nodeid with
    | none =>
      refine iff_of_true rfl ?_
      rintro n state hn hstate
      cases hn
      rw [hs] at hstate
      cases hstate
    | some state =>
      rw [map_some, getD_some, CNodeState.validated, Int.natCast_eq_zero,
        countP_eq_zero]
      constructor
      · intro hnone n state' hn hstate' entry hentry
        cases hn
        rw [hs] at hstate'
        cases hstate'
        exact Bool.eq_false_iff.mpr (hnone entry hentry)
      · intro hnone entry hentry
        exact Bool.eq_false_iff.mp (hnone nodeid state rfl hs entry hentry)
  | _ => exact iff_of_true rfl fun _ _ hn => by cases hn

/-- One block is requested from the only peer, which then times out and is disconnected. -/
theorem leftPeer_counted :
    let events : List DownloadEvent := [.initializeNode 1, .markBlockAsInFlight 1 7 (some 7) 0,
      .checkTimeouts 1 1000000000 60, .finalizeNode 1]
    let s := run step {} events
    s.mapNodeState = ∅ ∧ s.mapBlocksInFlight = ∅ ∧ s.nQueuedValidatedHeaders = 1 ∧ ¬ s.Exact := by
  intro events s
  have hrun : s.mapNodeState.entries.length = 0 ∧ s.mapBlocksInFlight.entries.length = 0 ∧
      s.nQueuedValidatedHeaders = 1 := by
    decide +kernel
  have hpeers : s.mapNodeState = ∅ := AList.ext (length_eq_zero_iff.mp hrun.1)
  refine ⟨hpeers, AList.ext (length_eq_zero_iff.mp hrun.2.1), hrun.2.2, ?_⟩
  intro hexact
  have hzero := (hexact.idle hpeers).2.1
  cases hzero

end Downloads

end Alqo
