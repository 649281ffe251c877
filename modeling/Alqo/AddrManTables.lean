import Alqo.AddrMan
import Alqo.Lib.SlotTable
import Alqo.Lib.Tally

/-!
# What the tables of the address manager have in common (addrman.cpp)

`Tables` also holds between the steps of a call, where an entry may stand in no slot; that every
entry has one (`Placed`) and that the counters count (`Counted`) are apart.
-/

namespace Alqo
open Lib.BackPointers Lib.SlotTable Lib.Tally AList
open Option hiding guard
open Function (update update_apply update_self update_eq_self_iff)

namespace CAddrMan

def posOf (s : CAddrMan) (nId : Nat) : Option Nat :=
  (s.mapInfo.lookup nId).bind fun info => info.nRandomPos.toNat?

variable (R : AddrRules)

structure EntryOk (s : CAddrMan) (nId : Nat) (info : CAddrInfo) : Prop where
  position : 0 ≤ info.nRandomPos
  lastTry : 0 ≤ info.nLastTry
  lastSuccess : 0 ≤ info.nLastSuccess
  refs_le : info.nRefCount ≤ ADDRMAN_NEW_BUCKETS_PER_ADDRESS
  tried : info.fInTried = true → info.nRefCount = 0 ∧ info.nLastSuccess ≠ 0 ∧
    s.vvTried (R.triedSlot s.nKey info.addr.service) = some nId
  new : info.fInTried = false → info.nRefCount = (slotsOf s.vvNew nId).card

structure Tables (s : CAddrMan) : Prop where
  random : Inverse s.posOf s.vRandom
  address : ∀ a nId, s.mapAddr a = some nId ↔
    ∃ info, s.mapInfo.lookup nId = some info ∧ info.addr.service.ip = a
  ids : ∀ nId info, s.mapInfo.lookup nId = some info → nId < s.nIdCount
  entry : ∀ nId info, s.mapInfo.lookup nId = some info → EntryOk R s nId info
  newSlot : ∀ slot nId, s.vvNew slot = some nId → ∃ info, s.mapInfo.lookup nId = some info ∧
    info.fInTried = false ∧ R.getBucketPosition s.nKey info.addr.service true slot.1 = slot.2
  triedSlot : ∀ slot nId, s.vvTried slot = some nId → ∃ info,
    s.mapInfo.lookup nId = some info ∧ info.fInTried = true ∧
      R.triedSlot s.nKey info.addr.service = slot

def triedWeight (_ : Nat) (info : CAddrInfo) : Int := if info.fInTried then 1 else 0
def newWeight (_ : Nat) (info : CAddrInfo) : Int := if info.fInTried then 0 else 1

theorem weights_of_tried (info : CAddrInfo) (h : info.fInTried = true) (nId : Nat) :
    triedWeight nId info = 1 ∧ newWeight nId info = 0 := by
  rw [triedWeight, newWeight, h]
  exact ⟨rfl, rfl⟩

theorem weights_of_new (info : CAddrInfo) (h : info.fInTried = false) (nId : Nat) :
    triedWeight nId info = 0 ∧ newWeight nId info = 1 := by
  rw [triedWeight, newWeight, h]
  exact ⟨rfl, rfl⟩

/- The counters, with `d` entries that are no longer counted as new. -/
structure Counted (d : Int) (s : CAddrMan) : Prop where
  tried : s.nTried = tally triedWeight s.mapInfo
  new : s.nNew + d = tally newWeight s.mapInfo

def Placed (X : Set Nat) (s : CAddrMan) : Prop :=
  ∀ nId info, s.mapInfo.lookup nId = some info → info.fInTried = false → nId ∉ X →
    0 < info.nRefCount

variable {R} {s t : CAddrMan} {nId : Nat} {info info' : CAddrInfo}

variable {k : Nat}

theorem Tables.address_unique (h : Tables R s) {other : CAddrInfo}
    (hinfo : s.mapInfo.lookup nId = some info) (hother : s.mapInfo.lookup k = some other)
    (hip : info.addr.service.ip = other.addr.service.ip) : nId = k := by
  have hid : s.mapAddr info.addr.service.ip = some nId := (h.address _ _).mpr ⟨info, hinfo, rfl⟩
  rw [hip, (h.address _ k).mpr ⟨other, hother, rfl⟩] at hid
  exact (Option.some.inj hid).symm

theorem toNat?_of_nonneg {i : Int} (h : 0 ≤ i) : i.toNat? = some i.toNat := by
  obtain ⟨n, rfl⟩ := Int.eq_ofNat_of_zero_le h
  rfl

theorem Tables.posOf_eq (h : Tables R s) (hinfo : s.mapInfo.lookup nId = some info) :
    s.posOf nId = some info.nRandomPos.toNat := by
  rw [posOf, hinfo, bind_some, toNat?_of_nonneg (h.entry nId info hinfo).position]

theorem posOf_change (hothers : ∀ k, k ≠ nId → t.mapInfo.lookup k = s.mapInfo.lookup k) :
    t.posOf = update s.posOf nId (t.posOf nId) := by
  funext k
  rw [update_apply]
  by_cases hk : k = nId
  · rw [if_pos hk, hk]
  · rw [if_neg hk, posOf, hothers k hk]
    rfl

theorem posOf_insert (hm : t.mapInfo = s.mapInfo.insert nId info') :
    t.posOf = update s.posOf nId info'.nRandomPos.toNat? := by
  have hothers : ∀ k, k ≠ nId → t.mapInfo.lookup k = s.mapInfo.lookup k := fun k hk => by
    rw [hm, lookup_insert_ne hk]
  rw [posOf_change hothers, posOf, hm, lookup_insert, bind_some]

theorem EntryOk.congr (h : EntryOk R s k info) (hkey : t.nKey = s.nKey)
    (hnew : slotsOf t.vvNew k = slotsOf s.vvNew k)
    (htried : ∀ slot, s.vvTried slot = some k → t.vvTried slot = some k) : EntryOk R t k info where
  position := h.position
  lastTry := h.lastTry
  lastSuccess := h.lastSuccess
  refs_le := h.refs_le
  tried := fun hin => by
    obtain ⟨hrefs, hsuccess, hslot⟩ := h.tried hin
    rw [hkey]
    exact ⟨hrefs, hsuccess, htried _ hslot⟩
  new := fun hin => by
    rw [hnew]
    exact h.new hin

/-- One entry is changed, made or taken away; the others keep their slots. -/
theorem Tables.change (h : Tables R s)
    (hlookup : ∀ k, k ≠ nId → t.mapInfo.lookup k = s.mapInfo.lookup k) (hkey : t.nKey = s.nKey)
    (hids : s.nIdCount ≤ t.nIdCount) (hrandom : Inverse t.posOf t.vRandom)
    (haddr : ∀ a k, k ≠ nId → (t.mapAddr a = some k ↔ s.mapAddr a = some k))
    (hothers : ∀ k, k ≠ nId → slotsOf t.vvNew k = slotsOf s.vvNew k ∧
      ∀ slot, t.vvTried slot = some k ↔ s.vvTried slot = some k)
    (hself : ∀ a, t.mapAddr a = some nId ↔
      ∃ info, t.mapInfo.lookup nId = some info ∧ info.addr.service.ip = a)
    (hentry : ∀ info, t.mapInfo.lookup nId = some info →
      nId < t.nIdCount ∧ EntryOk R t nId info)
    (hnew : ∀ slot, t.vvNew slot = some nId → ∃ info, t.mapInfo.lookup nId = some info ∧
      info.fInTried = false ∧ R.getBucketPosition s.nKey info.addr.service true slot.1 = slot.2)
    (htried : ∀ slot, t.vvTried slot = some nId → ∃ info, t.mapInfo.lookup nId = some info ∧
      info.fInTried = true ∧ R.triedSlot s.nKey info.addr.service = slot) : Tables R t := by
  refine ⟨hrandom, fun a k => ?_, fun k other hother => ?_, fun k other hother => ?_,
    fun slot k hslot => ?_, fun slot k hslot => ?_⟩ <;> by_cases hk : k = nId
  · exact hk ▸ hself a
  · rw [haddr a k hk, h.address, hlookup k hk]
  · subst hk
    exact (hentry other hother).1
  · rw [hlookup k hk] at hother
    exact (h.ids k other hother).trans_le hids
  · subst hk
    exact (hentry other hother).2
  · rw [hlookup k hk] at hother
    exact (h.entry k other hother).congr hkey (hothers k hk).1
      fun slot => ((hothers k hk).2 slot).mpr
  · subst hk
    exact hkey ▸ hnew slot hslot
  · rw [hlookup k hk, hkey]
    apply h.newSlot
    rwa [← mem_slotsOf, ← (hothers k hk).1, mem_slotsOf]
  · subst hk
    exact hkey ▸ htried slot hslot
  · rw [hlookup k hk, hkey]
    exact h.triedSlot slot k (((hothers k hk).2 slot).mp hslot)

/-- The maps around the tables are the same. -/
def SameIndex (s t : CAddrMan) : Prop :=
  t.mapAddr = s.mapAddr ∧ t.vRandom = s.vRandom ∧ t.nIdCount = s.nIdCount ∧ t.nKey = s.nKey

theorem Tables.withCounts (h : Tables R s) (nNew nTried : Int) :
    Tables R { s with nNew, nTried } :=
  ⟨h.random, h.address, h.ids, fun k info hinfo =>
    (h.entry k info hinfo).congr rfl rfl fun _ hslot => hslot, h.newSlot, h.triedSlot⟩

variable {slot : NewSlot}

section
variable (h : Tables R s) (hinfo : s.mapInfo.lookup nId = some info)
include h hinfo

theorem Tables.replace (hmap : t.mapInfo = s.mapInfo.insert nId info') (hframe : SameIndex s t)
    (hservice : info'.addr.service = info.addr.service)
    (hpos : info'.nRandomPos = info.nRandomPos) (hentry : EntryOk R t nId info')
    (hothers : ∀ k, k ≠ nId → slotsOf t.vvNew k = slotsOf s.vvNew k ∧
      ∀ slot, t.vvTried slot = some k ↔ s.vvTried slot = some k)
    (hnew : ∀ slot, t.vvNew slot = some nId → info'.fInTried = false ∧
      R.getBucketPosition s.nKey info.addr.service true slot.1 = slot.2)
    (htried : ∀ slot, t.vvTried slot = some nId → info'.fInTried = true ∧
      R.triedSlot s.nKey info.addr.service = slot) : Tables R t := by
  obtain ⟨haddr, hrandom, hids, hkey⟩ := hframe
  have hself : t.mapInfo.lookup nId = some info' := by rw [hmap, lookup_insert]
  rw [← hservice] at hnew htried
  refine h.change (fun k hk => by rw [hmap, lookup_insert_ne hk]) hkey hids.ge ?_
    (fun a k _ => by rw [haddr]) hothers (fun a => ?_) (fun other hother => ?_)
    (fun slot hslot => ⟨info', hself, hnew slot hslot⟩)
    (fun slot hslot => ⟨info', hself, htried slot hslot⟩)
  · have hsame : t.posOf = s.posOf := by
      rw [posOf_insert hmap, hpos, update_eq_self_iff, posOf, hinfo]
      rfl
    rw [hsame, hrandom]
    exact h.random
  · rw [haddr, h.address]
    simp only [hself, hinfo, Option.some.injEq, exists_eq_left', hservice]
  · rw [hself] at hother
    cases hother
    exact ⟨hids ▸ h.ids nId info hinfo, hentry⟩

theorem Tables.of_newSlot (hslot : s.vvNew slot = some nId) : info.fInTried = false ∧
      R.getBucketPosition s.nKey info.addr.service true slot.1 = slot.2 := by
  obtain ⟨other, hother, hfacts⟩ := h.newSlot slot nId hslot
  rw [hinfo] at hother
  cases hother
  exact hfacts

theorem Tables.of_triedSlot {slot : TriedSlot} (hslot : s.vvTried slot = some nId) :
    info.fInTried = true ∧ R.triedSlot s.nKey info.addr.service = slot := by
  obtain ⟨other, hother, hfacts⟩ := h.triedSlot slot nId hslot
  rw [hinfo] at hother
  cases hother
  exact hfacts

theorem Tables.setInfo (hservice : info'.addr.service = info.addr.service)
    (hpos : info'.nRandomPos = info.nRandomPos)
    (hrefs : info'.nRefCount = info.nRefCount) (htried : info'.fInTried = info.fInTried)
    (hlast : 0 ≤ info'.nLastTry)
    (hsuccess : info'.nLastSuccess = info.nLastSuccess ∨ 0 < info'.nLastSuccess) :
    Tables R (s.setInfo nId info') := by
  have hold := h.entry nId info hinfo
  refine h.replace hinfo rfl ⟨rfl, rfl, rfl, rfl⟩ hservice hpos ?_ (fun k _ => ⟨rfl, fun _ => Iff.rfl⟩)
    (fun slot hslot => ?_) (fun slot hslot => ?_)
  · refine ⟨?_, hlast, ?_, ?_, ?_, ?_⟩
    · rw [hpos]
      exact hold.position
    · rcases hsuccess with hsame | hpositive
      · rw [hsame]
        exact hold.lastSuccess
      · exact Int64.le_of_lt hpositive
    · rw [hrefs]
      exact hold.refs_le
    · intro hin
      rw [htried] at hin
      obtain ⟨hzero, hnonzero, hslot⟩ := hold.tried hin
      rw [hrefs, hservice]
      refine ⟨hzero, ?_, hslot⟩
      rcases hsuccess with hsame | hpositive
      · rw [hsame]
        exact hnonzero
      · exact fun heq => absurd hpositive (by rw [heq]; decide)
    · intro hin
      rw [htried] at hin
      rw [hrefs]
      exact hold.new hin
  · rw [htried]
    exact h.of_newSlot hinfo hslot
  · rw [htried]
    exact h.of_triedSlot hinfo hslot

theorem Tables.no_newSlot (hin : info.fInTried = false) (hrefs : info.nRefCount = 0) (slot : NewSlot) : s.vvNew slot ≠ some nId := by
  have hcard := (h.entry nId info hinfo).new hin
  exact card_slotsOf_eq_zero.mp (by omega) slot

theorem Tables.unref (hslot : s.vvNew slot = some nId) : Tables R (s.unref slot nId info) := by
  have hold := h.entry nId info hinfo
  obtain ⟨hin, -⟩ := h.of_newSlot hinfo hslot
  have hcard := card_slotsOf_clear hslot
  have hrefs := hold.new hin
  refine h.replace hinfo rfl ⟨rfl, rfl, rfl, rfl⟩ rfl rfl ?_ (fun k hk => ⟨?_, fun _ => Iff.rfl⟩)
    (fun slot' hslot' => ?_) (fun slot' hslot' => ?_)
  · refine ⟨hold.position, hold.lastTry, hold.lastSuccess, ?_, fun htried => ?_, fun _ => ?_⟩
    · have hle := hold.refs_le
      dsimp only
      omega
    · dsimp only at htried
      rw [hin] at htried
      cases htried
    · show info.nRefCount - 1 = (slotsOf (update s.vvNew slot none) nId).card
      omega
  · exact slotsOf_clear_ne hslot hk
  · change update s.vvNew slot none slot' = some nId at hslot'
    rw [update_apply] at hslot'
    split_ifs at hslot'
    exact (h.of_newSlot hinfo hslot' :)
  · exact (h.of_triedSlot hinfo hslot' :)

theorem Tables.ref (hslot : s.vvNew slot = none) (hin : info.fInTried = false)
    (hposition : R.getBucketPosition s.nKey info.addr.service true slot.1 = slot.2)
    (hle : info.nRefCount < ADDRMAN_NEW_BUCKETS_PER_ADDRESS)
    (hmap : t.mapInfo = s.mapInfo.insert nId { info with nRefCount := info.nRefCount + 1 })
    (htable : t.vvNew = update s.vvNew slot (some nId) ∧ t.vvTried = s.vvTried)
    (hframe : SameIndex s t) : Tables R t := by
  have hold := h.entry nId info hinfo
  have hcard := card_slotsOf_put (k := nId) hslot
  have hrefs := hold.new hin
  refine h.replace hinfo hmap hframe rfl rfl ?_ (fun k hk => ⟨?_, fun _ => by rw [htable.2]⟩)
    (fun slot' hslot' => ?_) (fun slot' hslot' => ?_)
  · refine ⟨hold.position, hold.lastTry, hold.lastSuccess, ?_, fun htried => ?_, fun _ => ?_⟩
    · dsimp only
      omega
    · dsimp only at htried
      rw [hin] at htried
      cases htried
    · show info.nRefCount + 1 = (slotsOf t.vvNew nId).card
      rw [htable.1]
      omega
  · rw [htable.1]
    exact slotsOf_put_ne hslot hk
  · rw [htable.1, update_apply] at hslot'
    split_ifs at hslot' with hsame
    · rw [hsame]
      exact ⟨hin, hposition⟩
    · exact (h.of_newSlot hinfo hslot' :)
  · rw [htable.2] at hslot'
    exact (h.of_triedSlot hinfo hslot' :)

theorem Tables.untry {slot : TriedSlot} (hslot : s.vvTried slot = some nId)
    (hmap : t.mapInfo = s.mapInfo.insert nId { info with fInTried := false })
    (htable : t.vvTried = update s.vvTried slot none ∧ t.vvNew = s.vvNew)
    (hframe : SameIndex s t) : Tables R t := by
  have hold := h.entry nId info hinfo
  obtain ⟨hin, hplace⟩ := h.of_triedSlot hinfo hslot
  have hnone : ∀ slot', s.vvNew slot' ≠ some nId := by
    intro slot' hslot'
    rw [(h.of_newSlot hinfo hslot').1] at hin
    cases hin
  have hcleared : ∀ slot' k, t.vvTried slot' = some k ↔ s.vvTried slot' = some k ∧ slot' ≠ slot := by
    intro slot' k
    rw [htable.1, update_apply]
    by_cases hsame : slot' = slot
    · simp [hsame]
    · simp [hsame]
  refine h.replace hinfo hmap hframe rfl rfl ?_ (fun k hk => ⟨by rw [htable.2], fun slot' => ?_⟩)
    (fun slot' hslot' => ?_) (fun slot' hslot' => ?_)
  · refine ⟨hold.position, hold.lastTry, hold.lastSuccess, hold.refs_le, nofun, fun _ => ?_⟩
    rw [htable.2, card_slotsOf_eq_zero.mpr hnone]
    exact (hold.tried hin).1
  · rw [hcleared]
    refine and_iff_left_of_imp ?_
    rintro hk' rfl
    rw [hslot] at hk'
    exact hk (Option.some.inj hk').symm
  · rw [htable.2] at hslot'
    exact absurd hslot' (hnone slot')
  · obtain ⟨hslot', hne⟩ := (hcleared slot' nId).mp hslot'
    exact absurd ((h.of_triedSlot hinfo hslot').2.symm.trans hplace) hne

theorem Tables.try (hslot : s.vvTried (R.triedSlot s.nKey info.addr.service) = none)
    (hin : info.fInTried = false) (hrefs : info.nRefCount = 0) (hsuccess : info.nLastSuccess ≠ 0)
    (hmap : t.mapInfo = s.mapInfo.insert nId { info with fInTried := true })
    (htable : t.vvTried = update s.vvTried (R.triedSlot s.nKey info.addr.service)
      (some nId) ∧ t.vvNew = s.vvNew)
    (hframe : SameIndex s t) : Tables R t := by
  have hold := h.entry nId info hinfo
  have hnone : ∀ slot, s.vvNew slot ≠ some nId := h.no_newSlot hinfo hin hrefs
  refine h.replace hinfo hmap hframe rfl rfl ?_ (fun k hk => ⟨by rw [htable.2], fun slot => ?_⟩)
    (fun slot hmem => ?_) (fun slot hmem => ?_)
  · refine ⟨hold.position, hold.lastTry, hold.lastSuccess, hold.refs_le, fun _ => ?_, nofun⟩
    refine ⟨hrefs, hsuccess, ?_⟩
    rw [htable.1, hframe.2.2.2]
    exact update_self _ _ _
  · rw [htable.1, update_apply]
    split_ifs with hsame
    · rw [hsame, hslot]
      exact iff_of_false (fun heq => hk (Option.some.inj heq).symm) nofun
    · rfl
  · rw [htable.2] at hmem
    exact absurd hmem (hnone slot)
  · rw [htable.1, update_apply] at hmem
    split_ifs at hmem with hsame
    · exact ⟨rfl, hsame.symm⟩
    · have hfacts := h.of_triedSlot hinfo hmem
      rw [hin] at hfacts
      cases hfacts.1

end

section
variable (h : Tables R s)
include h

theorem Tables.lookup_nIdCount : s.mapInfo.lookup s.nIdCount = none := by
  cases hinfo : s.mapInfo.lookup s.nIdCount with
  | none => rfl
  | some info => exact absurd (h.ids _ info hinfo) (Nat.lt_irrefl _)

theorem Tables.create (addr : CAddress) (source : CNetAddr)
    (haddr : s.mapAddr addr.service.ip = none) : Tables R (s.create addr source) := by
  have hnone := h.lookup_nIdCount
  have hself : (s.create addr source).mapInfo.lookup s.nIdCount =
      some { addr, source, nRandomPos := s.vRandom.length } := lookup_insert _
  have hslots : ∀ slot, s.vvNew slot ≠ some s.nIdCount := by
    intro slot hslot
    obtain ⟨info, hinfo, -⟩ := h.newSlot slot _ hslot
    rw [hnone] at hinfo
    cases hinfo
  refine h.change (fun k (hk : k ≠ s.nIdCount) => lookup_insert_ne hk) rfl (Nat.le_succ _) ?_
    (fun a k hk => ?_) (fun k hk => ⟨rfl, fun _ => Iff.rfl⟩) (fun a => ?_) (fun info hinfo => ?_)
    (fun slot hslot => absurd hslot (hslots slot)) (fun slot hslot => ?_)
  · have hpos : (s.create addr source).posOf =
        update s.posOf s.nIdCount (some s.vRandom.length) :=
      posOf_insert (show (s.create addr source).mapInfo = s.mapInfo.insert s.nIdCount
        { addr, source, nRandomPos := s.vRandom.length } from rfl)
    rw [hpos]
    refine h.random.push ?_
    rw [posOf, hnone]
    rfl
  · show update s.mapAddr addr.service.ip (some s.nIdCount) a = some k ↔ _
    rw [update_apply]
    split_ifs with ha
    · rw [ha, haddr]
      exact iff_of_false (fun heq => hk (Option.some.inj heq).symm) nofun
    · rfl
  · show update s.mapAddr addr.service.ip (some s.nIdCount) a = some s.nIdCount ↔ _
    simp only [hself, Option.some.injEq, exists_eq_left', update_apply]
    split_ifs with ha
    · exact iff_of_true rfl ha.symm
    · refine iff_of_false (fun hmem => ?_) (fun heq => ha heq.symm)
      obtain ⟨info, hinfo, -⟩ := (h.address a _).mp hmem
      rw [hnone] at hinfo
      cases hinfo
  · rw [hself] at hinfo
    cases hinfo
    have hzero : (0 : Int64) ≤ 0 := by decide
    have hrefs : (0 : Int) ≤ ADDRMAN_NEW_BUCKETS_PER_ADDRESS := by decide
    refine ⟨Nat.lt_succ_self _, Int.natCast_nonneg _, hzero, hzero, hrefs, nofun, fun _ => ?_⟩
    show 0 = ((slotsOf s.vvNew s.nIdCount).card : Int)
    rw [card_slotsOf_eq_zero.mpr hslots]
    rfl
  · obtain ⟨info, hinfo, -⟩ := h.triedSlot slot _ hslot
    rw [hnone] at hinfo
    cases hinfo

end

def forgetPos (info : CAddrInfo) : CAddrInfo := { info with nRandomPos := 0 }

structure Reordered (s t : CAddrMan) : Prop where
  entries : ∀ k, (t.mapInfo.lookup k).map forgetPos = (s.mapInfo.lookup k).map forgetPos
  weights : ∀ f, (∀ k info p, f k { info with nRandomPos := p } = f k info) →
    tally f t.mapInfo = tally f s.mapInfo
  size : t.vRandom.length = s.vRandom.length
  frame : t.nIdCount = s.nIdCount ∧ t.mapAddr = s.mapAddr ∧ t.nKey = s.nKey
  tables : t.vvNew = s.vvNew ∧ t.vvTried = s.vvTried
  counts : t.nNew = s.nNew ∧ t.nTried = s.nTried

theorem Reordered.refl (s : CAddrMan) : Reordered s s :=
  ⟨fun _ => rfl, fun _ _ => rfl, rfl, ⟨rfl, rfl, rfl⟩, ⟨rfl, rfl⟩, ⟨rfl, rfl⟩⟩

theorem lookup_of_map_forgetPos (hinfo : t.mapInfo.lookup k = some info)
    (hsame : (s.mapInfo.lookup k).map forgetPos = (t.mapInfo.lookup k).map forgetPos) :
    ∃ p, s.mapInfo.lookup k = some { info with nRandomPos := p } := by
  rw [hinfo] at hsame
  obtain ⟨old, hold, heq⟩ := map_eq_some_iff.mp hsame
  refine ⟨old.nRandomPos, hold.trans (congrArg some ?_)⟩
  cases old
  cases info
  simp only [forgetPos, CAddrInfo.mk.injEq] at heq ⊢
  tauto

theorem Reordered.lookup (hr : Reordered s t) (hinfo : t.mapInfo.lookup k = some info) :
    ∃ p, s.mapInfo.lookup k = some { info with nRandomPos := p } :=
  lookup_of_map_forgetPos hinfo (hr.entries k).symm

theorem Reordered.symm_lookup (hr : Reordered s t) (hinfo : s.mapInfo.lookup k = some info) :
    ∃ p, t.mapInfo.lookup k = some { info with nRandomPos := p } :=
  lookup_of_map_forgetPos hinfo (hr.entries k)

theorem EntryOk.withPos {p : Int} (h : EntryOk R s k { info with nRandomPos := p })
    (hpos : 0 ≤ info.nRandomPos) : EntryOk R s k info :=
  ⟨hpos, h.lastTry, h.lastSuccess, h.refs_le, h.tried, h.new⟩

theorem Tables.reorder (h : Tables R s) (hr : Reordered s t) (hrandom : Inverse t.posOf t.vRandom)
    (hpos : ∀ k info, t.mapInfo.lookup k = some info → 0 ≤ info.nRandomPos) : Tables R t := by
  obtain ⟨hids, haddr, hkey⟩ := hr.frame
  obtain ⟨hnew, htried⟩ := hr.tables
  refine ⟨hrandom, ?_, ?_, ?_, ?_, ?_⟩
  · intro a k
    rw [haddr, h.address]
    constructor
    · rintro ⟨info, hinfo, ha⟩
      obtain ⟨p, hp⟩ := hr.symm_lookup hinfo
      exact ⟨_, hp, ha⟩
    · rintro ⟨info, hinfo, ha⟩
      obtain ⟨p, hp⟩ := hr.lookup hinfo
      exact ⟨_, hp, ha⟩
  · intro k info hinfo
    obtain ⟨p, hp⟩ := hr.lookup hinfo
    rw [hids]
    exact h.ids k _ hp
  · intro k info hinfo
    obtain ⟨p, hp⟩ := hr.lookup hinfo
    have hold := (h.entry k _ hp).withPos (hpos k info hinfo)
    exact hold.congr hkey (by rw [hnew]) fun slot hslot => by rw [htried]; exact hslot
  · intro slot k hslot
    rw [hnew] at hslot
    obtain ⟨info, hinfo, hfacts⟩ := h.newSlot slot k hslot
    obtain ⟨p, hp⟩ := hr.symm_lookup hinfo
    rw [hkey]
    exact ⟨_, hp, hfacts⟩
  · intro slot k hslot
    rw [htried] at hslot
    obtain ⟨info, hinfo, hfacts⟩ := h.triedSlot slot k hslot
    obtain ⟨p, hp⟩ := hr.symm_lookup hinfo
    rw [hkey]
    exact ⟨_, hp, hfacts⟩

theorem Reordered.setPos (hr : Reordered s t) (hinfo : t.mapInfo.lookup k = some info)
    (hpos : ∀ k info, t.mapInfo.lookup k = some info → 0 ≤ info.nRandomPos) (p : Nat) :
    Reordered s { t with mapInfo := t.mapInfo.insert k { info with nRandomPos := p } } ∧
      ∀ k' info', (t.mapInfo.insert k { info with nRandomPos := p }).lookup k' = some info' →
        0 ≤ info'.nRandomPos := by
  refine ⟨⟨fun k' => ?_, fun f hf => ?_, hr.size, hr.frame, hr.tables, hr.counts⟩,
    fun k' info' hinfo' => ?_⟩
  · dsimp only
    rw [← hr.entries]
    by_cases hk : k' = k
    · rw [hk, lookup_insert, hinfo]
      rfl
    · rw [lookup_insert_ne hk]
  · exact (tally_insert_same hinfo (hf k info p)).trans (hr.weights f hf)
  · by_cases hk : k' = k
    · rw [hk, lookup_insert] at hinfo'
      cases hinfo'
      exact Int.natCast_nonneg p
    · rw [lookup_insert_ne hk] at hinfo'
      exact hpos k' info' hinfo'

theorem swapRandom_ok (h : Tables R s) {i j : Nat} (hi : i < s.vRandom.length)
    (hj : j < s.vRandom.length) :
    ∃ t, s.swapRandom i j = some t ∧ Tables R t ∧ Reordered s t ∧
      t.vRandom[j]? = s.vRandom[i]? := by
  unfold swapRandom
  by_cases hij : i = j
  · rw [if_pos hij, hij]
    exact ⟨s, rfl, h, .refl s, rfl⟩
  rw [if_neg hij]
  have entry_at : ∀ i, i < s.vRandom.length → ∃ nId info, s.vRandom[i]? = some nId ∧
      s.mapInfo.lookup nId = some info ∧ s.posOf nId = some i := by
    intro i hi
    have hpos := (h.random s.vRandom[i] i).mpr (List.getElem?_eq_getElem hi)
    obtain ⟨info, hinfo, -⟩ := bind_eq_some_iff.mp hpos
    exact ⟨_, info, List.getElem?_eq_getElem hi, hinfo, hpos⟩
  obtain ⟨a, infoA, ha, hinfoA, hposA⟩ := entry_at i hi
  obtain ⟨b, infoB, hb, hinfoB, hposB⟩ := entry_at j hj
  have hab : a ≠ b := by
    rintro rfl
    exact hij (Option.some.inj (hposA.symm.trans hposB))
  rw [ha, hb]
  dsimp only
  rw [hinfoA, hinfoB]
  -- first one entry is given its new position, then the other
  let u : CAddrMan := { s with mapInfo := s.mapInfo.insert a { infoA with nRandomPos := j } }
  let t : CAddrMan := { u with
    mapInfo := u.mapInfo.insert b { infoB with nRandomPos := i }
    vRandom := swap s.vRandom i j a b }
  have hinfoB' : u.mapInfo.lookup b = some infoB := (lookup_insert_ne hab.symm).trans hinfoB
  obtain ⟨hru, hposu⟩ := (Reordered.refl s).setPos hinfoA
    (fun k info hinfo => (h.entry k info hinfo).position) j
  obtain ⟨hrt, hpos⟩ := hru.setPos hinfoB' hposu i
  have hsize : (swap s.vRandom i j a b).length = s.vRandom.length := by
    rw [swap, List.length_set, List.length_set]
  have hr : Reordered s t := ⟨hrt.entries, hrt.weights, hsize, hrt.frame, hrt.tables, hrt.counts⟩
  have hrandom : Inverse t.posOf t.vRandom := by
    have hu : u.posOf = update s.posOf a (some j) :=
      posOf_insert (show u.mapInfo = s.mapInfo.insert a { infoA with nRandomPos := j } from rfl)
    have ht : t.posOf = update u.posOf b (some i) :=
      posOf_insert (show t.mapInfo = u.mapInfo.insert b { infoB with nRandomPos := i } from rfl)
    rw [ht, hu]
    exact h.random.swap hposA hposB hij
  refine ⟨t, rfl, h.reorder hr hrandom hpos, hr, ?_⟩
  show (swap s.vRandom i j a b)[j]? = some a
  rw [swap, List.getElem?_set, if_pos rfl, List.length_set, if_pos hj]

structure Without (nId : Nat) (s t : CAddrMan) : Prop where
  gone : t.mapInfo.lookup nId = none
  others : ∀ k, k ≠ nId →
    (t.mapInfo.lookup k).map forgetPos = (s.mapInfo.lookup k).map forgetPos
  frame : t.nIdCount = s.nIdCount ∧ t.nKey = s.nKey
  tables : t.vvNew = s.vvNew ∧ t.vvTried = s.vvTried
  counts : t.nNew = s.nNew - 1 ∧ t.nTried = s.nTried
  weights : tally newWeight t.mapInfo = tally newWeight s.mapInfo - 1 ∧
    tally triedWeight t.mapInfo = tally triedWeight s.mapInfo

theorem Tables.erase (h : Tables R s) (hinfo : s.mapInfo.lookup nId = some info)
    (hin : info.fInTried = false) (hrefs : info.nRefCount = 0)
    (hlast : s.posOf nId = some (s.vRandom.length - 1)) :
    Tables R { s with
      vRandom := s.vRandom.dropLast
      mapAddr := update s.mapAddr info.addr.service.ip none
      mapInfo := s.mapInfo.erase nId
      nNew := s.nNew - 1 } := by
  have hgone : (s.mapInfo.erase nId).lookup nId = none := lookup_erase _ _
  refine h.change (fun k hk => lookup_erase_ne hk) rfl le_rfl ?_ (fun a k hk => ?_)
    (fun k hk => ⟨rfl, fun _ => Iff.rfl⟩) (fun a => ?_) (fun other hother => ?_)
    (fun slot hslot => absurd hslot (h.no_newSlot hinfo hin hrefs slot)) (fun slot hslot => ?_)
  · rw [posOf_change fun k hk => lookup_erase_ne hk, posOf, hgone]
    exact h.random.pop hlast
  · dsimp only
    rw [update_apply]
    split_ifs with ha
    · refine iff_of_false nofun fun hmem => hk ?_
      obtain ⟨other, hother, hip⟩ := (h.address a k).mp hmem
      exact h.address_unique hother hinfo (hip.trans ha)
    · rfl
  · simp only [hgone, reduceCtorEq, false_and, exists_false, iff_false]
    rw [update_apply]
    split_ifs with ha
    · nofun
    · intro hmem
      obtain ⟨other, hother, hip⟩ := (h.address a nId).mp hmem
      rw [hinfo] at hother
      cases hother
      exact ha hip.symm
  · rw [hgone] at hother
    cases hother
  · rw [(h.of_triedSlot hinfo hslot).1] at hin
    cases hin

theorem delete_ok (h : Tables R s) (hinfo : s.mapInfo.lookup nId = some info)
    (hin : info.fInTried = false) (hrefs : info.nRefCount = 0) :
    ∃ t, s.delete nId = some t ∧ Tables R t ∧ Without nId s t := by
  have hpos := h.posOf_eq hinfo
  have hlt := h.random.lt hpos
  obtain ⟨u, hu, htables, hr, hlast⟩ := swapRandom_ok h (j := s.vRandom.length - 1) hlt (by omega)
  obtain ⟨p, hp⟩ := hr.symm_lookup hinfo
  have hpos' : u.posOf nId = some (u.vRandom.length - 1) := by
    rw [htables.random, hr.size, hlast, ← h.random]
    exact hpos
  have hnonempty : s.vRandom ≠ [] := by
    rintro hnil
    rw [hnil] at hlt
    cases hlt
  refine ⟨_, ?_, htables.erase hp hin hrefs hpos', ?_⟩
  · unfold delete
    rw [hinfo]
    simp only [bind_eq_bind, bind_some, hin, hrefs, guard, if_true,
      toNat?_of_nonneg (h.entry nId info hinfo).position, hnonempty, ne_eq, not_false_eq_true,
      hu, pure_def]
  · obtain ⟨hids, -, hkey⟩ := hr.frame
    refine ⟨lookup_erase _ _, fun k hk => ?_, ⟨hids, hkey⟩, hr.tables, ⟨?_, hr.counts.2⟩, ?_⟩
    · dsimp only
      rw [lookup_erase_ne hk]
      exact hr.entries k
    · dsimp only
      rw [hr.counts.1]
    · have hnew := tally_erase (f := newWeight) hp
      have htried := tally_erase (f := triedWeight) hp
      rw [hr.weights newWeight fun _ _ _ => rfl] at hnew
      rw [hr.weights triedWeight fun _ _ _ => rfl] at htried
      obtain ⟨hzero, hone⟩ := weights_of_new { info with nRandomPos := p } hin nId
      dsimp only
      exact ⟨by omega, by omega⟩

end CAddrMan

end Alqo
