import Alqo.Masternodes
import Alqo.Lib.Latest
import Alqo.Lib.Runs

/-!
# Sporks (spork.h, spork.cpp)

`ProcessSpork` takes a message that is signed later than the one in force; `UpdateSpork` does not
look. The key, the hash of a message and the two signature operations are parameters.
-/

namespace Alqo
open Lib.Runs Lib.Latest Function List

/-- `sporkDefs` with `SporkId`. -/
structure CSporkDef where
  sporkId : Int
  defaultValue : Int
  name : String

def sporkDefs : List CSporkDef := [ ⟨10001, 0, "SPORK_2_SWIFTTX"⟩,
  ⟨10002, 0, "SPORK_3_SWIFTTX_BLOCK_FILTERING"⟩,
  ⟨10004, 1000, "SPORK_5_MAX_VALUE"⟩,
  ⟨10007, 4070908800, "SPORK_8_MASTERNODE_PAYMENT_ENFORCEMENT"⟩,
  ⟨10008, 4070908800, "SPORK_9_MASTERNODE_BUDGET_ENFORCEMENT"⟩,
  ⟨10009, 0, "SPORK_10_MASTERNODE_PAY_UPDATED_NODES"⟩,
  ⟨10012, 4070908800, "SPORK_13_ENABLE_SUPERBLOCKS"⟩,
  ⟨10013, 4070908800, "SPORK_14_NEW_PROTOCOL_ENFORCEMENT"⟩,
  ⟨10014, 4070908800, "SPORK_15_NEW_PROTOCOL_ENFORCEMENT_2"⟩,
  ⟨10015, 4070908800, "SPORK_16_ZEROCOIN_MAINTENANCE_MODE"⟩,
  ⟨10016, 4070908800, "SPORK_17_CHOKE_CONTROL_MODE"⟩]

structure CSporkMessage where
  nSporkID : Int
  nValue : Int
  nTimeSigned : Int
  vchSig : Bytes := []
  nMessVersion : Int := MESS_VER_HASH
deriving DecidableEq, Repr

structure CSporkManager where
  mapSporks : uint256 → Option CSporkMessage := fun _ => none
  mapSporksActive : Int → Option CSporkMessage := fun _ => none
  /-- The spork database. -/
  sporkDB : Int → Option CSporkMessage := fun _ => none

def getSporkNameByID (nSporkID : Int) : String :=
  match sporkDefs.find? fun d => d.sporkId == nSporkID with
  | none => "Unknown"
  | some d => d.name

def CSporkManager.getSporkValue (s : CSporkManager) (nSporkID : Int) : Int :=
  match s.mapSporksActive nSporkID with
  | some spork => spork.nValue
  | none =>
    match sporkDefs.find? fun d => d.sporkId == nSporkID with
    | some d => d.defaultValue
    | none => -1

def CSporkManager.isSporkActive (s : CSporkManager) (nSporkID nAdjustedTime : Int) : Bool :=
  decide (s.getSporkValue nSporkID < nAdjustedTime)

/-- What signing and checking amount to: the hash a message is filed under, the
check against `SporkPubKey`, and `Sign`, which sets version and signature. -/
structure SporkKeys where
  getHash : CSporkMessage → uint256
  checkSignature : CSporkMessage → Bool
  sign : CSporkMessage → Option (Int × Bytes)

inductive SporkEvent where
  /-- A `spork` message, with the flags and the clock that its handler reads. -/
  | spork (message : CSporkMessage) (fLiteMode fTip : Bool) (nAdjustedTime : Int)
  /-- `UpdateSpork` from the signer's console. -/
  | updateSpork (nSporkID nValue nTime : Int)

section
variable (keys : SporkKeys) (s : CSporkManager) (spork : CSporkMessage)

def CSporkManager.activate : CSporkManager :=
  { s with
    mapSporks := update s.mapSporks (keys.getHash spork) (some spork)
    mapSporksActive := update s.mapSporksActive spork.nSporkID (some spork) }

/-- The message in force is as recent as this one. -/
def CSporkManager.signedMoreRecently : Bool :=
  match s.mapSporksActive spork.nSporkID with
  | some active => decide (spork.nTimeSigned ≤ active.nTimeSigned)
  | none => false

/-- The `spork` branch of `ProcessSpork`. -/
def processSpork (fLiteMode fTip : Bool) (nAdjustedTime : Int) : CSporkManager :=
  if fLiteMode then s
  else if ¬ fTip then s
  else if getSporkNameByID spork.nSporkID = "Unknown" then s
  else if nAdjustedTime + 2 * 60 * 60 < spork.nTimeSigned then s
  else if s.signedMoreRecently spork then s
  else if ¬ keys.checkSignature spork then s
  else
    { s.activate keys spork with
      sporkDB := update s.sporkDB spork.nSporkID (some spork) }

/- The database is not written. -/
def updateSpork (nSporkID nValue nTime : Int) : CSporkManager :=
  let spork : CSporkMessage := { nSporkID, nValue, nTimeSigned := nTime }
  match keys.sign spork with
  | none => s
  | some (nMessVersion, vchSig) => s.activate keys { spork with nMessVersion, vchSig }

def sporkStep : SporkEvent → CSporkManager
  | .spork message fLiteMode fTip nAdjustedTime =>
    processSpork keys s message fLiteMode fTip nAdjustedTime
  | .updateSpork nSporkID nValue nTime => updateSpork keys s nSporkID nValue nTime

end

section
variable {keys : SporkKeys} {s : CSporkManager} {M : List CSporkMessage} {message : CSporkMessage}
  {events : List SporkEvent}

def Heard (keys : SporkKeys) : SporkEvent → Prop
  | .spork message fLiteMode fTip nAdjustedTime =>
    fLiteMode = false ∧ fTip = true ∧ message.nTimeSigned ≤ nAdjustedTime + 2 * 60 * 60 ∧
      keys.checkSignature message = true
  | .updateSpork _ _ _ => False

def IsSpork (nSporkID : Int) : Prop := getSporkNameByID nSporkID ≠ "Unknown"

instance (nSporkID : Int) : Decidable (IsSpork nSporkID) :=
  inferInstanceAs (Decidable (¬ _))

theorem activate_active (keys : SporkKeys) (spork : CSporkMessage) (id : Int) :
    (s.activate keys spork).mapSporksActive id =
      if spork.nSporkID = id then some spork else s.mapSporksActive id := by
  by_cases hid : spork.nSporkID = id
  · subst hid
    simp [CSporkManager.activate]
  · rw [if_neg hid]
    exact update_of_ne (Ne.symm hid) _ _

theorem processSpork_unknown (fLiteMode fTip : Bool) (nAdjustedTime : Int)
    (h : ¬ IsSpork message.nSporkID) :
    processSpork keys s message fLiteMode fTip nAdjustedTime = s := by
  have hname : getSporkNameByID message.nSporkID = "Unknown" := not_not.mp h
  unfold processSpork
  rw [if_pos hname]
  split_ifs <;> rfl

theorem processSpork_heard {fLiteMode fTip : Bool} {nAdjustedTime : Int}
    (hknown : IsSpork message.nSporkID)
    (h : Heard keys (.spork message fLiteMode fTip nAdjustedTime)) (id : Int) :
    (processSpork keys s message fLiteMode fTip nAdjustedTime).mapSporksActive id =
      if message.nSporkID = id then
        offer CSporkMessage.nTimeSigned (s.mapSporksActive id) message
      else s.mapSporksActive id := by
  obtain ⟨hlite, htip, htime, hsigned⟩ := h
  have hactivated := activate_active (s := s) keys message id
  unfold processSpork
  rw [if_neg (by simp [hlite]), if_neg (by simp [htip]), if_neg hknown, if_neg (by omega)]
  by_cases hid : message.nSporkID = id
  · subst hid
    rw [if_pos rfl] at hactivated ⊢
    cases hactive : s.mapSporksActive message.nSporkID with
    | none =>
      rw [if_neg (by simp [CSporkManager.signedMoreRecently, hactive]), if_neg (by simp [hsigned])]
      exact hactivated
    | some active =>
      by_cases hnew : active.nTimeSigned < message.nTimeSigned
      · rw [if_neg (by simp [CSporkManager.signedMoreRecently, hactive, hnew]),
          if_neg (by simp [hsigned]), offer, if_pos hnew]
        exact hactivated
      · rw [if_pos (by simpa [CSporkManager.signedMoreRecently, hactive] using hnew), hactive,
          offer, if_neg hnew]
  · rw [if_neg hid] at hactivated ⊢
    split_ifs
    · rfl
    · exact hactivated

def offersFor (id : Int) (events : List SporkEvent) : List CSporkMessage :=
  events.filterMap fun
    | .spork message _ _ _ => if message.nSporkID = id then some message else none
    | .updateSpork _ _ _ => none

theorem run_heard (s : CSporkManager) (events : List SporkEvent)
    (hheard : ∀ e ∈ events, Heard keys e) (id : Int) :
    (run (sporkStep keys) s events).mapSporksActive id = if IsSpork id then
        offerAll CSporkMessage.nTimeSigned (s.mapSporksActive id) (offersFor id events)
      else s.mapSporksActive id := by
  induction events generalizing s with
  | nil => simp [offersFor]
  | cons e es ih =>
    have hfirst := hheard e mem_cons_self
    have hrest := ih (sporkStep keys s e) fun e' he' => hheard e' (mem_cons_of_mem e he')
    cases e with
    | updateSpork nSporkID nValue nTime => exact hfirst.elim
    | spork message fLiteMode fTip nAdjustedTime =>
      rw [run_cons, hrest]
      by_cases hknown : IsSpork message.nSporkID
      · rw [sporkStep, processSpork_heard hknown hfirst id]
        by_cases hid : message.nSporkID = id
        · subst hid
          simp [offersFor, hknown]
        · simp [offersFor, hid]
      · rw [sporkStep, processSpork_unknown _ _ _ hknown]
        by_cases hid : message.nSporkID = id
        · subst hid
          simp [hknown]
        · simp [offersFor, hid]

theorem mem_offersFor {id : Int} {m : CSporkMessage} : m ∈ offersFor id events ↔
      (∃ fLiteMode fTip nAdjustedTime,
        SporkEvent.spork m fLiteMode fTip nAdjustedTime ∈ events) ∧ m.nSporkID = id := by
  unfold offersFor
  rw [mem_filterMap]
  constructor
  · rintro ⟨e, he, hm⟩
    cases e with
    | updateSpork nSporkID nValue nTime => cases hm
    | spork message fLiteMode fTip nAdjustedTime =>
      dsimp only at hm
      split_ifs at hm with hid
      cases hm
      exact ⟨⟨fLiteMode, fTip, nAdjustedTime, he⟩, hid⟩
  · rintro ⟨⟨fLiteMode, fTip, nAdjustedTime, he⟩, hid⟩
    exact ⟨_, he, if_pos hid⟩

structure Delivers (keys : SporkKeys) (M : List CSporkMessage) (events : List SporkEvent) :
    Prop where
  heard : ∀ e ∈ events, Heard keys e
  messages : ∀ m, m ∈ M ↔ ∃ fLiteMode fTip nAdjustedTime,
    SporkEvent.spork m fLiteMode fTip nAdjustedTime ∈ events

def LastUnique (s : CSporkManager) (M : List CSporkMessage) : Prop :=
  ∀ id, IsSpork id → UniqueLatest CSporkMessage.nTimeSigned (s.mapSporksActive id)
    fun m => m ∈ M ∧ m.nSporkID = id

theorem Delivers.offers (h : Delivers keys M events) (id : Int) (m : CSporkMessage) :
    m ∈ offersFor id events ↔ m ∈ M ∧ m.nSporkID = id := by
  rw [mem_offersFor, h.messages]

def deliverAll (l : List CSporkMessage) : List SporkEvent :=
  l.map fun m => .spork m false true m.nTimeSigned

theorem deliverAll_delivers {l : List CSporkMessage} (hsame : ∀ m, m ∈ l ↔ m ∈ M)
    (hsigned : ∀ m ∈ M, keys.checkSignature m = true) : Delivers keys M (deliverAll l) := by
  constructor
  · intro e he
    obtain ⟨m, hm, rfl⟩ := mem_map.mp he
    exact ⟨rfl, rfl, by omega, hsigned m ((hsame m).mp hm)⟩
  · intro m
    rw [← hsame m]
    constructor
    · intro hm
      exact ⟨_, _, _, mem_map.mpr ⟨m, hm, rfl⟩⟩
    · rintro ⟨fLiteMode, fTip, nAdjustedTime, he⟩
      obtain ⟨m', hm', heq⟩ := mem_map.mp he
      cases heq
      exact hm'

theorem offersFor_deliverAll (id : Int) (l : List CSporkMessage) :
    offersFor id (deliverAll l) = l.filter fun m => m.nSporkID = id := by
  induction l with
  | nil => rfl
  | cons m l ih =>
    have hcons : offersFor id (deliverAll (m :: l)) =
        (if m.nSporkID = id then [m] else []) ++ offersFor id (deliverAll l) := by
      by_cases hid : m.nSporkID = id <;> simp [offersFor, deliverAll, hid]
    rw [hcons, ih]
    by_cases hid : m.nSporkID = id
    · simp [hid]
    · simp [hid]

theorem lastUnique_of_converges (hsigned : ∀ m ∈ M, keys.checkSignature m = true)
    (hconv : ∀ D D', Delivers keys M D → Delivers keys M D' →
      (run (sporkStep keys) s D).mapSporksActive = (run (sporkStep keys) s D').mapSporksActive) :
    LastUnique s M := by
  intro id hid
  by_contra hnot
  have hfilter : ¬ UniqueLatest CSporkMessage.nTimeSigned (s.mapSporksActive id)
      (· ∈ M.filter fun m => m.nSporkID = id) := by
    simpa [UniqueLatest, mem_filter] using hnot
  obtain ⟨a, ha, b, hb, hne⟩ := exists_offerAll_ne hfilter
  obtain ⟨haM, haid⟩ := mem_filter.mp ha
  obtain ⟨hbM, hbid⟩ := mem_filter.mp hb
  have hfirst : ∀ c ∈ M, Delivers keys M (deliverAll (c :: M)) := by
    intro c hc
    refine deliverAll_delivers (fun m => ?_) hsigned
    rw [mem_cons]
    exact ⟨fun h => h.elim (fun heq => heq ▸ hc) fun hm => hm, fun hm => .inr hm⟩
  have hcons : ∀ c : CSporkMessage, decide (c.nSporkID = id) = true →
      offersFor id (deliverAll (c :: M)) = c :: M.filter fun m => m.nSporkID = id := by
    intro c hc
    rw [offersFor_deliverAll]
    exact filter_cons_of_pos hc
  have hsame := congrFun (hconv _ _ (hfirst a haM) (hfirst b hbM)) id
  rw [run_heard s _ (hfirst a haM).heard, run_heard s _ (hfirst b hbM).heard, if_pos hid,
    if_pos hid, hcons a haid, hcons b hbid] at hsame
  exact hne hsame

theorem converges_of_lastUnique (hunique : LastUnique s M) {D D' : List SporkEvent}
    (hD : Delivers keys M D) (hD' : Delivers keys M D') :
    (run (sporkStep keys) s D).mapSporksActive = (run (sporkStep keys) s D').mapSporksActive := by
  funext id
  rw [run_heard s D hD.heard, run_heard s D' hD'.heard]
  by_cases hid : IsSpork id
  · rw [if_pos hid, if_pos hid]
    apply offerAll_eq_of_mem_iff
    · intro m
      rw [hD.offers, hD'.offers]
    · have h := hunique id hid
      simpa only [UniqueLatest, hD.offers id] using h
  · rw [if_neg hid, if_neg hid]

def TimesKept (s t : CSporkManager) : Prop :=
  ∀ id m, s.mapSporksActive id = some m →
    ∃ m', t.mapSporksActive id = some m' ∧ m.nTimeSigned ≤ m'.nTimeSigned

theorem TimesKept.refl (s : CSporkManager) : TimesKept s s := fun _ m h => ⟨m, h, le_refl _⟩

theorem TimesKept.trans {t u : CSporkManager} (h : TimesKept s t) (h' : TimesKept t u) :
    TimesKept s u := by
  intro id m hm
  obtain ⟨m', hm', hle⟩ := h id m hm
  obtain ⟨m'', hm'', hle'⟩ := h' id m' hm'
  exact ⟨m'', hm'', le_trans hle hle'⟩

theorem timesKept_activate_iff (keys : SporkKeys) (spork : CSporkMessage) :
    TimesKept s (s.activate keys spork) ↔
      ∀ m, s.mapSporksActive spork.nSporkID = some m → m.nTimeSigned ≤ spork.nTimeSigned := by
  constructor
  · intro h m hm
    obtain ⟨m', hm', hle⟩ := h spork.nSporkID m hm
    rw [activate_active, if_pos rfl] at hm'
    cases hm'
    exact hle
  · intro h id m hm
    by_cases hid : spork.nSporkID = id
    · subst hid
      exact ⟨spork, by rw [activate_active, if_pos rfl], h m hm⟩
    · exact ⟨m, by rw [activate_active, if_neg hid, hm], le_refl _⟩

/-- `UpdateSpork` runs with a clock that is not behind the message in force. -/
def ClockAhead (keys : SporkKeys) (s : CSporkManager) : SporkEvent → Prop
  | .spork _ _ _ _ => True
  | .updateSpork nSporkID nValue nTime =>
    keys.sign { nSporkID, nValue, nTimeSigned := nTime } ≠ none →
      ∀ m, s.mapSporksActive nSporkID = some m → m.nTimeSigned ≤ nTime

theorem timesKept_processSpork (message : CSporkMessage) (fLiteMode fTip : Bool)
    (nAdjustedTime : Int) :
    TimesKept s (processSpork keys s message fLiteMode fTip nAdjustedTime) := by
  unfold processSpork
  split_ifs with hlite htip hname htime hrecent hsigned
  · exact TimesKept.refl s
  · exact TimesKept.refl s
  · exact TimesKept.refl s
  · exact TimesKept.refl s
  · refine (timesKept_activate_iff keys message).mpr fun m hm => ?_
    simp only [CSporkManager.signedMoreRecently, hm, decide_eq_true_eq] at hrecent
    omega
  · exact TimesKept.refl s
  · exact TimesKept.refl s

theorem timesKept_sporkStep_iff (keys : SporkKeys) (s : CSporkManager) (e : SporkEvent) :
    TimesKept s (sporkStep keys s e) ↔ ClockAhead keys s e := by
  cases e with
  | spork message fLiteMode fTip nAdjustedTime =>
    exact iff_of_true (timesKept_processSpork message fLiteMode fTip nAdjustedTime) trivial
  | updateSpork nSporkID nValue nTime =>
    rw [sporkStep, updateSpork, ClockAhead]
    cases hsign : keys.sign { nSporkID, nValue, nTimeSigned := nTime } with
    | none => exact iff_of_true (TimesKept.refl s) fun h => absurd rfl h
    | some signature =>
      obtain ⟨nMessVersion, vchSig⟩ := signature
      exact (timesKept_activate_iff keys _).trans ⟨fun h _ => h, fun h => h (by simp)⟩

theorem timesKept_run (keys : SporkKeys) (s : CSporkManager) (events : List SporkEvent)
    (h : Along (sporkStep keys) (ClockAhead keys) s events) :
    TimesKept s (run (sporkStep keys) s events) := by
  induction events generalizing s with
  | nil => exact TimesKept.refl s
  | cons e es ih =>
    exact ((timesKept_sporkStep_iff keys s e).mpr h.1).trans (ih (sporkStep keys s e) h.2)

theorem sporks_converge_iff (keys : SporkKeys) (s : CSporkManager) (M : List CSporkMessage)
    (hsigned : ∀ m ∈ M, keys.checkSignature m = true) :
    ((∀ D D', Delivers keys M D → Delivers keys M D' → (run (sporkStep keys) s D).mapSporksActive =
          (run (sporkStep keys) s D').mapSporksActive) ↔ LastUnique s M) ∧
    (∀ D, Delivers keys M D → ∀ m ∈ M, IsSpork m.nSporkID →
      ∃ r, (run (sporkStep keys) s D).mapSporksActive m.nSporkID = some r ∧
        m.nTimeSigned ≤ r.nTimeSigned ∧ (r ∈ M ∨ s.mapSporksActive m.nSporkID = some r)) ∧
    (∀ e, TimesKept s (sporkStep keys s e) ↔ ClockAhead keys s e) ∧
    ∀ events, Along (sporkStep keys) (ClockAhead keys) s events →
      TimesKept s (run (sporkStep keys) s events) := by
  refine ⟨⟨lastUnique_of_converges hsigned, fun hunique D D' hD hD' =>
    converges_of_lastUnique hunique hD hD'⟩, fun D hD m hm hid => ?_,
    timesKept_sporkStep_iff keys s, timesKept_run keys s⟩
  have hoffer : m ∈ offersFor m.nSporkID D := (hD.offers m.nSporkID m).mpr ⟨hm, rfl⟩
  obtain ⟨r, hr, hle⟩ :=
    offerAll_le CSporkMessage.nTimeSigned (s.mapSporksActive m.nSporkID) hoffer
  refine ⟨r, by rw [run_heard s D hD.heard, if_pos hid, hr], hle, ?_⟩
  rcases offerAll_mem hr with hheld | ⟨hin, -⟩
  · exact .inr hheld
  · exact .inl ((hD.offers m.nSporkID r).mp hin).1

end

def plainKeys : SporkKeys where
  getHash m := BitVec.ofInt 256 m.nTimeSigned
  checkSignature m := m.vchSig == [1]
  sign _ := some (MESS_VER_HASH, [1])

/-- Two messages about one spork, signed one second apart. -/
theorem twoSporks_converge :
    let M : List CSporkMessage := [⟨10007, 1, 1000, [1], 1⟩, ⟨10007, 2, 1001, [1], 1⟩]
    ∀ D D', Delivers plainKeys M D → Delivers plainKeys M D' →
      (run (sporkStep plainKeys) {} D).mapSporksActive =
        (run (sporkStep plainKeys) {} D').mapSporksActive := by
  intro M
  refine (sporks_converge_iff plainKeys {} M (by decide)).1.mpr fun id _ a b ha hb _ _ hla hlb => ?_
  have hlater : ∀ c ∈ M, (∀ m, m ∈ M ∧ m.nSporkID = id → m.nTimeSigned ≤ c.nTimeSigned) →
      c.nSporkID = id → c = ⟨10007, 2, 1001, [1], 1⟩ := by
    intro c hc hmax hid
    rcases mem_cons.mp hc with rfl | hc
    · subst hid
      exact absurd (hmax ⟨10007, 2, 1001, [1], 1⟩ ⟨by decide, rfl⟩) (by decide)
    · exact mem_singleton.mp hc
  rw [hlater a ha.1 hla ha.2, hlater b hb.1 hlb hb.2]

/-- Two messages signed in one second are taken in the order in which they come,
and the signer's own update is taken whatever its time. -/
theorem sporks_diverge :
    let a : CSporkMessage := ⟨10007, 1, 1000, [1], 1⟩
    let b : CSporkMessage := ⟨10007, 2, 1000, [1], 1⟩
    let heard (m : CSporkMessage) : SporkEvent := .spork m false true 1000
    plainKeys.checkSignature a = true ∧ plainKeys.checkSignature b = true ∧
      (run (sporkStep plainKeys) {} [heard a, heard b]).mapSporksActive 10007 = some a ∧
      (run (sporkStep plainKeys) {} [heard b, heard a]).mapSporksActive 10007 = some b ∧
      (run (sporkStep plainKeys) {} [heard a, .updateSpork 10007 3 900]).mapSporksActive 10007 =
        some ⟨10007, 3, 900, [1], 1⟩ := by
  decide

end Alqo
