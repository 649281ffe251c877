import Alqo.AddrManTables

/-!
# The calls of the address manager keep its tables (addrman.cpp)

On tables that are in order each function ends without a failed assertion and keeps them so.
-/

namespace Alqo
open Lib.BackPointers Lib.SlotTable Lib.Tally Function AList
open Option hiding guard

namespace CAddrMan

/- Tables in order, up to `d` entries that are not counted and those of `X` without a slot. -/
structure Sound (R : AddrRules) (d : Int) (X : Set Nat) (s : CAddrMan) : Prop where
  tables : Tables R s
  counted : Counted d s
  placed : Placed X s

variable {R : AddrRules} {s t u : CAddrMan} {nId : Nat} {info info' : CAddrInfo} {d : Int}
  {X : Set Nat} {slot : NewSlot} {addr : CNetAddr} {nTime : Int64}

theorem Counted.replace (h : Counted d s) (hinfo : s.mapInfo.lookup nId = some info)
    (hmap : t.mapInfo = s.mapInfo.insert nId info') (htried : info'.fInTried = info.fInTried)
    (hcounts : t.nNew = s.nNew ∧ t.nTried = s.nTried) : Counted d t := by
  refine ⟨?_, ?_⟩
  · rw [hcounts.2, hmap, h.tried, tally_insert_same hinfo]
    rw [triedWeight, triedWeight, htried]
  · rw [hcounts.1, hmap, h.new, tally_insert_same hinfo]
    rw [newWeight, newWeight, htried]

theorem Counted.move {e : Int} (h : Counted d s) (hinfo : s.mapInfo.lookup nId = some info)
    (hmap : t.mapInfo = s.mapInfo.insert nId info')
    (htried : t.nTried = s.nTried + triedWeight nId info' - triedWeight nId info)
    (hnew : t.nNew + e = s.nNew + d + newWeight nId info' - newWeight nId info) : Counted e t := by
  refine ⟨?_, ?_⟩
  · rw [hmap, tally_insert hinfo, htried, h.tried]
    omega
  · rw [hmap, tally_insert hinfo, hnew, h.new]
    omega

theorem Counted.without (h : Counted d s) (hw : Without nId s t) : Counted d t := by
  obtain ⟨hnew, htried⟩ := hw.counts
  obtain ⟨hwnew, hwtried⟩ := hw.weights
  have hcount := h.new
  refine ⟨?_, by omega⟩
  rw [htried, hwtried, h.tried]

theorem Placed.exempt (h : Placed X s)
    (hothers : ∀ k, k ≠ nId → t.mapInfo.lookup k = s.mapInfo.lookup k) :
    Placed (insert nId X) t := by
  intro k other hother hin hk
  rw [Set.mem_insert_iff, not_or] at hk
  rw [hothers k hk.1] at hother
  exact h k other hother hin hk.2

theorem Placed.admit (h : Placed (insert nId X) s) (hinfo : s.mapInfo.lookup nId = some info)
    (hrefs : 0 < info.nRefCount) : Placed X s := by
  intro k other hother hin hk
  by_cases hkid : k = nId
  · rw [hkid, hinfo] at hother
    cases hother
    exact hrefs
  · exact h k other hother hin fun hmem => hmem.elim hkid hk

theorem Placed.replace (h : Placed (insert nId X) s)
    (hmap : t.mapInfo = s.mapInfo.insert nId info')
    (hself : info'.fInTried = false → nId ∉ X → 0 < info'.nRefCount) : Placed X t := by
  intro k other hother hin hk
  rw [hmap] at hother
  by_cases hkid : k = nId
  · rw [hkid, lookup_insert] at hother
    cases hother
    exact hself hin (hkid ▸ hk)
  · rw [lookup_insert_ne hkid] at hother
    exact h k other hother hin fun hmem => hmem.elim hkid hk

theorem Placed.without (h : Placed (insert nId X) s) (hw : Without nId s t) : Placed X t := by
  intro k other hother hin hk
  have hkid : k ≠ nId := by
    rintro rfl
    rw [hw.gone] at hother
    cases hother
  obtain ⟨p, hp⟩ := lookup_of_map_forgetPos hother (hw.others k hkid).symm
  have hold := h k _ hp
  exact hold hin fun hmem => hmem.elim hkid hk

structure SlotCleared (slot : NewSlot) (s t : CAddrMan) : Prop where
  empty : t.vvNew slot = none
  slots : ∀ slot', slot' ≠ slot → t.vvNew slot' = s.vvNew slot'
  others : ∀ k, s.vvNew slot ≠ some k →
    (t.mapInfo.lookup k).map forgetPos = (s.mapInfo.lookup k).map forgetPos
  frame : t.nIdCount = s.nIdCount ∧ t.nKey = s.nKey ∧ t.vvTried = s.vvTried

theorem unref_cleared (s : CAddrMan) (hslot : s.vvNew slot = some nId) (info : CAddrInfo) :
    SlotCleared slot s (s.unref slot nId info) := by
  refine ⟨update_self _ _ _, fun slot' hne => update_of_ne hne _ _,
    fun k hk => ?_, ⟨rfl, rfl, rfl⟩⟩
  have hkid : k ≠ nId := fun heq => hk (heq ▸ hslot)
  show ((s.mapInfo.insert nId _).lookup k).map forgetPos = _
  rw [lookup_insert_ne hkid]

theorem SlotCleared.without (h : SlotCleared slot s t) (hslot : s.vvNew slot = some nId)
    (hw : Without nId t u) : SlotCleared slot s u := by
  obtain ⟨hids, hkey, htried⟩ := h.frame
  obtain ⟨hids', hkey'⟩ := hw.frame
  obtain ⟨hnew', htried'⟩ := hw.tables
  refine ⟨?_, fun slot' hne => ?_, fun k hk => ?_, ⟨hids'.trans hids, hkey'.trans hkey,
    htried'.trans htried⟩⟩
  · rw [hnew']
    exact h.empty
  · rw [hnew']
    exact h.slots slot' hne
  · have hkid : k ≠ nId := fun heq => hk (heq ▸ hslot)
    rw [hw.others k hkid]
    exact h.others k hk

theorem clearNew_ok (h : Sound R d X s) (slot : NewSlot) :
    ∃ t, s.clearNew slot = some t ∧ Sound R d X t ∧ SlotCleared slot s t := by
  unfold clearNew
  cases hslot : s.vvNew slot with
  | none => exact ⟨s, rfl, h, hslot, fun _ _ => rfl, fun _ _ => rfl, rfl, rfl, rfl⟩
  | some nId =>
    obtain ⟨info, hinfo, hin, -⟩ := h.tables.newSlot slot nId hslot
    have hcard : (slotsOf s.vvNew nId).card ≠ 0 := fun hzero =>
      card_slotsOf_eq_zero.mp hzero slot hslot
    have hrefs := (h.tables.entry nId info hinfo).new hin
    have hpositive : info.nRefCount > 0 := by omega
    have htables := h.tables.unref hinfo hslot
    have hcounted : Counted d (s.unref slot nId info) :=
      h.counted.replace hinfo rfl rfl ⟨rfl, rfl⟩
    have hcleared := unref_cleared s hslot info
    dsimp only
    rw [hinfo]
    simp only [bind_eq_bind, bind_some, guard, hpositive, if_true, pure_def]
    by_cases hzero : info.nRefCount - 1 = 0
    · rw [if_pos hzero]
      have hlast : (s.unref slot nId info).mapInfo.lookup nId =
          some { info with nRefCount := info.nRefCount - 1 } := lookup_insert _
      obtain ⟨t, ht, htables', hw⟩ := delete_ok htables hlast hin hzero
      exact ⟨t, ht, ⟨htables', hcounted.without hw,
        (h.placed.exempt fun _ => lookup_insert_ne).without hw⟩, hcleared.without hslot hw⟩
    · rw [if_neg hzero]
      refine ⟨_, rfl, ⟨htables, hcounted,
        (h.placed.exempt fun _ _ => rfl).replace rfl fun _ _ => ?_⟩, hcleared⟩
      show 0 < info.nRefCount - 1
      omega

structure LeftBuckets (R : AddrRules) (nId : Nat) (info : CAddrInfo)
    (buckets : List (Fin ADDRMAN_NEW_BUCKET_COUNT)) (s t : CAddrMan) : Prop where
  tables : Tables R t
  counted : ∀ d, Counted d s → Counted d t
  entry : ∃ n, t.mapInfo.lookup nId = some { info with nRefCount := n }
  others : ∀ k, k ≠ nId → t.mapInfo.lookup k = s.mapInfo.lookup k
  slots : ∀ slot k, t.vvNew slot = some k ↔ s.vvNew slot = some k ∧ ¬ (k = nId ∧ slot.1 ∈ buckets)
  frame : t.nIdCount = s.nIdCount ∧ t.nKey = s.nKey ∧ t.vvTried = s.vvTried

theorem leaveBucket_left (h : Tables R s) (hinfo : s.mapInfo.lookup nId = some info)
    (bucket : Fin ADDRMAN_NEW_BUCKET_COUNT) :
    LeftBuckets R nId info [bucket] s (s.leaveBucket R nId info.addr.service bucket) := by
  -- only one slot of the bucket can hold the entry
  have hone : ∀ slot, s.vvNew slot = some nId → slot.1 = bucket →
      slot = (bucket, R.getBucketPosition s.nKey info.addr.service true bucket) := by
    rintro ⟨b, p⟩ hslot rfl
    rw [(h.of_newSlot hinfo hslot).2]
  unfold leaveBucket
  dsimp only
  split_ifs with hslot
  · rw [hinfo]
    refine ⟨h.unref hinfo hslot, fun d hd => hd.replace hinfo rfl rfl ⟨rfl, rfl⟩,
      ⟨info.nRefCount - 1, lookup_insert _⟩, fun k hk => lookup_insert_ne hk,
      fun slot k => ?_, rfl, rfl, rfl⟩
    show update s.vvNew _ none slot = some k ↔ _
    rw [update_apply, List.mem_singleton]
    split_ifs with hsame
    · refine iff_of_false nofun ?_
      rintro ⟨hk, hnot⟩
      rw [hsame, hslot] at hk
      exact hnot ⟨(Option.some.inj hk).symm, by rw [hsame]⟩
    · refine (and_iff_left_of_imp ?_).symm
      rintro hk ⟨rfl, hbucket⟩
      exact hsame (hone slot hk hbucket)
  · refine ⟨h, fun d hd => hd, ⟨info.nRefCount, hinfo⟩, fun k _ => rfl, fun slot k => ?_,
      rfl, rfl, rfl⟩
    refine (and_iff_left_of_imp ?_).symm
    rintro hk ⟨rfl, hbucket⟩
    rw [List.mem_singleton] at hbucket
    rw [hone slot hk hbucket] at hk
    exact hslot hk

theorem LeftBuckets.trans {n : Int} {buckets buckets' : List (Fin ADDRMAN_NEW_BUCKET_COUNT)}
    (h : LeftBuckets R nId info buckets s t)
    (h' : LeftBuckets R nId { info with nRefCount := n } buckets' t u) :
    LeftBuckets R nId info (buckets ++ buckets') s u := by
  obtain ⟨hids, hkey, htried⟩ := h.frame
  obtain ⟨hids', hkey', htried'⟩ := h'.frame
  refine ⟨h'.tables, fun d hd => h'.counted d (h.counted d hd), h'.entry, fun k hk => ?_,
    fun slot k => ?_, hids'.trans hids, hkey'.trans hkey, htried'.trans htried⟩
  · rw [h'.others k hk, h.others k hk]
  · rw [h'.slots, h.slots, List.mem_append]
    tauto

theorem leaveBuckets_left (buckets : List (Fin ADDRMAN_NEW_BUCKET_COUNT)) (h : Tables R s)
    (hinfo : s.mapInfo.lookup nId = some info) :
    LeftBuckets R nId info buckets s (buckets.foldl (leaveBucket R nId info.addr.service) s) := by
  induction buckets generalizing s info with
  | nil =>
    refine ⟨h, fun d hd => hd, ⟨info.nRefCount, hinfo⟩, fun k _ => rfl, fun slot k => ?_,
      rfl, rfl, rfl⟩
    simp
  | cons bucket buckets ih =>
    have hfirst := leaveBucket_left h hinfo bucket
    obtain ⟨n, hn⟩ := hfirst.entry
    have hrest := ih hfirst.tables hn
    exact hfirst.trans hrest

structure Evicted (nId : Nat) (slot : TriedSlot) (s t : CAddrMan) : Prop where
  empty : t.vvTried slot = none
  entry : (t.mapInfo.lookup nId).map forgetPos = (s.mapInfo.lookup nId).map forgetPos
  key : t.nKey = s.nKey

theorem evict_ok {slot : TriedSlot} {nIdEvict : Nat} (h : Sound R d X s)
    (hslot : s.vvTried slot = some nIdEvict) (hnId : nId ≠ nIdEvict)
    (hnone : ∀ slot, s.vvNew slot ≠ some nId) :
    ∃ t, s.evict R slot nIdEvict = some t ∧ Sound R d X t ∧ Evicted nId slot s t := by
  obtain ⟨infoOld, hold, hin, -⟩ := h.tables.triedSlot slot nIdEvict hslot
  have hrefs := ((h.tables.entry _ _ hold).tried hin).1
  -- first it is in no table at all
  let u : CAddrMan := { s.setInfo nIdEvict { infoOld with fInTried := false } with
    vvTried := update s.vvTried slot none
    nTried := s.nTried - 1 }
  have hu : Tables R u := h.tables.untry hold hslot rfl ⟨rfl, rfl⟩ ⟨rfl, rfl, rfl, rfl⟩
  have hucounted : Counted (d + 1) u := by
    obtain ⟨htried, hnew⟩ := weights_of_tried infoOld hin nIdEvict
    obtain ⟨htried', hnew'⟩ := weights_of_new { infoOld with fInTried := false } rfl nIdEvict
    refine h.counted.move hold rfl ?_ ?_
    · show s.nTried - 1 = _
      omega
    · show s.nNew + (d + 1) = _
      omega
  have huplaced : Placed (insert nIdEvict X) u :=
    h.placed.exempt fun _ => lookup_insert_ne
  have hself : u.mapInfo.lookup nIdEvict = some { infoOld with fInTried := false } :=
    lookup_insert _
  have hfree := hu.no_newSlot hself rfl hrefs
  -- then the slot where it belongs is made free
  let place := R.newSlot s.nKey infoOld.addr.service infoOld.source
  obtain ⟨v, hv, hsound, hcleared⟩ := clearNew_ok ⟨hu, hucounted, huplaced⟩ place
  obtain ⟨p, hp⟩ := lookup_of_map_forgetPos hself (hcleared.others nIdEvict (hfree _))
  obtain ⟨hids, hkey, htried⟩ := hcleared.frame
  let infoNew : CAddrInfo := { infoOld with fInTried := false, nRandomPos := p, nRefCount := 1 }
  let t : CAddrMan := { v.setInfo nIdEvict infoNew with
    vvNew := update v.vvNew place (some nIdEvict)
    nNew := v.nNew + 1 }
  have hmap : t.mapInfo = v.mapInfo.insert nIdEvict
      { ({ infoOld with fInTried := false, nRandomPos := p } : CAddrInfo) with
        nRefCount := infoOld.nRefCount + 1 } := by
    rw [hrefs]
    rfl
  refine ⟨t, ?_, ⟨?_, ?_, ?_⟩, ?_, ?_, ?_⟩
  · unfold evict
    rw [hold]
    simp only [bind_eq_bind, bind_some]
    change Option.bind (u.clearNew place) _ = _
    rw [hv]
    simp only [bind_some, guard, hp, pure_def]
    change Option.bind (if v.vvNew place = none then some () else failure) _ = _
    rw [if_pos hcleared.empty]
    rfl
  · refine hsound.tables.ref hp hcleared.empty rfl ?_ ?_ hmap ⟨rfl, rfl⟩ ⟨rfl, rfl, rfl, rfl⟩
    · rw [hkey]
      rfl
    · show infoOld.nRefCount < _
      rw [hrefs]
      decide
  · refine hsound.counted.move hp hmap ?_ ?_
    · show v.nTried = _
      simp [triedWeight]
    · show v.nNew + 1 + d = _
      simp [newWeight]
      omega
  · exact hsound.placed.replace rfl fun _ _ => Int.one_pos
  · show v.vvTried slot = none
    rw [htried]
    exact update_self _ _ _
  · show ((v.mapInfo.insert nIdEvict infoNew).lookup nId).map forgetPos = _
    rw [lookup_insert_ne hnId, hcleared.others nId (hnone _)]
    show ((s.mapInfo.insert nIdEvict _).lookup nId).map forgetPos = _
    rw [lookup_insert_ne hnId]
  · exact hkey

theorem makeTried_ok (h : Sound R 0 X s) (hinfo : s.mapInfo.lookup nId = some info)
    (hin : info.fInTried = false) (hsuccess : info.nLastSuccess ≠ 0) :
    ∃ t, s.makeTried R nId = some t ∧ Sound R 0 X t ∧ t.nKey = s.nKey := by
  have hleft := leaveBuckets_left (List.finRange ADDRMAN_NEW_BUCKET_COUNT) h.tables hinfo
  generalize hu : (List.finRange ADDRMAN_NEW_BUCKET_COUNT).foldl
    (leaveBucket R nId info.addr.service) s = u at hleft
  obtain ⟨n, hn⟩ := hleft.entry
  obtain ⟨-, hkey, -⟩ := hleft.frame
  have hfree : ∀ slot, u.vvNew slot ≠ some nId := by
    intro slot hslot
    exact ((hleft.slots slot nId).mp hslot).2 ⟨rfl, List.mem_finRange _⟩
  have hrefs : n = 0 := by
    have hcard := (hleft.tables.entry nId _ hn).new hin
    rw [card_slotsOf_eq_zero.mpr hfree] at hcard
    exact hcard
  subst hrefs
  let v : CAddrMan := { u with nNew := u.nNew - 1 }
  have hv : Sound R 1 (insert nId X) v := by
    have hcounted := hleft.counted 0 h.counted
    refine ⟨hleft.tables.withCounts _ _, ⟨hcounted.tried, ?_⟩, h.placed.exempt hleft.others⟩
    have hnew := hcounted.new
    show u.nNew - 1 + 1 = tally newWeight u.mapInfo
    omega
  let slot := R.triedSlot v.nKey info.addr.service
  have hmade : ∃ w, v.makeRoom R slot = some w ∧ Sound R 1 (insert nId X) w ∧
      Evicted nId slot v w := by
    unfold makeRoom
    cases hslot : v.vvTried slot with
    | none => exact ⟨v, rfl, hv, hslot, rfl, rfl⟩
    | some nIdEvict =>
      refine evict_ok hv hslot ?_ hfree
      rintro rfl
      have hfacts := hv.tables.of_triedSlot hn hslot
      rw [hin] at hfacts
      cases hfacts.1
  obtain ⟨w, hw, hsound, hevicted⟩ := hmade
  obtain ⟨p, hp⟩ := lookup_of_map_forgetPos hn hevicted.entry
  have hwkey : w.nKey = v.nKey := hevicted.key
  refine ⟨{ w.setInfo nId { info with nRefCount := 0, nRandomPos := p, fInTried := true } with
    vvTried := update w.vvTried slot (some nId)
    nTried := w.nTried + 1 }, ?_, ⟨?_, ?_, ?_⟩, hwkey.trans hkey⟩
  · unfold makeTried
    rw [hinfo]
    simp only [bind_eq_bind, bind_some]
    rw [hu]
    rw [hn]
    simp only [bind_some, guard, if_true, pure_def]
    rw [hw]
    simp only [bind_some]
    change Option.bind (if w.vvTried slot = none then some () else failure) _ = _
    rw [if_pos hevicted.empty, bind_some, hp]
    rfl
  · refine hsound.tables.try hp ?_ hin rfl hsuccess rfl ⟨?_, rfl⟩ ⟨rfl, rfl, rfl, rfl⟩
    · rw [hwkey]
      exact hevicted.empty
    · rw [hwkey]
  · obtain ⟨htried, hnew⟩ := weights_of_new { info with nRefCount := 0, nRandomPos := p } hin nId
    refine hsound.counted.move hp rfl ?_ ?_
    · rw [htried]
      show w.nTried + 1 = w.nTried + 1 - 0
      omega
    · rw [hnew]
      show w.nNew + 0 = w.nNew + 1 + 0 - 1
      omega
  · exact hsound.placed.replace rfl nofun

theorem lookup_of_find (h : s.find addr = some (nId, info)) : s.mapInfo.lookup nId = some info := by
  unfold find at h
  cases haddr : s.mapAddr addr with
  | none =>
    rw [haddr] at h
    cases h
  | some k =>
    rw [haddr] at h
    obtain ⟨other, hother, heq⟩ := map_eq_some_iff.mp h
    cases heq
    exact hother

theorem Tables.mapAddr_of_find (h : Tables R s) (hfind : s.find addr = none) :
    s.mapAddr addr = none := by
  unfold find at hfind
  cases haddr : s.mapAddr addr with
  | none => rfl
  | some k =>
    obtain ⟨info, hinfo, -⟩ := (h.address addr k).mp haddr
    rw [haddr] at hfind
    dsimp only at hfind
    rw [hinfo] at hfind
    cases hfind

theorem Sound.setInfo (h : Sound R d X s) (hinfo : s.mapInfo.lookup nId = some info)
    (hservice : info'.addr.service = info.addr.service)
    (hpos : info'.nRandomPos = info.nRandomPos) (hrefs : info'.nRefCount = info.nRefCount)
    (htried : info'.fInTried = info.fInTried) (hlast : 0 ≤ info'.nLastTry)
    (hsuccess : info'.nLastSuccess = info.nLastSuccess ∨ 0 < info'.nLastSuccess) :
    Sound R d X (s.setInfo nId info') := by
  refine ⟨h.tables.setInfo hinfo hservice hpos hrefs htried hlast hsuccess,
    h.counted.replace hinfo rfl htried ⟨rfl, rfl⟩,
    (h.placed.exempt fun _ _ => rfl).replace rfl fun hin hk => ?_⟩
  rw [htried] at hin
  rw [hrefs]
  exact h.placed nId info hinfo hin hk

theorem good_ok (h : Sound R 0 ∅ s) (addr : CService) (htime : 0 < nTime)
    (nRnd : Fin ADDRMAN_NEW_BUCKET_COUNT) :
    ∃ t, s.good_ R addr nTime nRnd = some t ∧ Sound R 0 ∅ t ∧ t.nKey = s.nKey := by
  unfold good_
  cases hfind : s.find addr.ip with
  | none => exact ⟨s, rfl, h, rfl⟩
  | some found =>
    obtain ⟨nId, info⟩ := found
    have hinfo := lookup_of_find hfind
    have hsound : Sound R 0 ∅ (s.setInfo nId
        { info with nLastSuccess := nTime, nLastTry := nTime, nAttempts := 0 }) :=
      h.setInfo hinfo rfl rfl rfl rfl (Int64.le_of_lt htime) (.inr htime)
    dsimp only
    by_cases hservice : info.addr.service ≠ addr
    · rw [if_pos hservice]
      exact ⟨s, rfl, h, rfl⟩
    rw [if_neg hservice]
    by_cases hin : info.fInTried = true
    · rw [if_pos hin]
      exact ⟨_, rfl, hsound, rfl⟩
    · rw [if_neg hin]
      split_ifs
      · refine makeTried_ok hsound (lookup_insert _) (Bool.not_eq_true _ ▸ hin) ?_
        exact fun heq => absurd htime (by rw [show nTime = 0 from heq]; decide)
      · exact ⟨_, rfl, hsound, rfl⟩

theorem yields_ok (h : Tables R s) (slot : NewSlot) (info : CAddrInfo) (nNow : Int64) :
    ∃ fInsert, s.yields slot info nNow = some fInsert := by
  unfold yields
  cases hslot : s.vvNew slot with
  | none => exact ⟨true, rfl⟩
  | some k =>
    obtain ⟨other, hother, -⟩ := h.newSlot slot k hslot
    dsimp only
    rw [hother]
    exact ⟨_, rfl⟩

/- An entry of the new table, perhaps without a slot so far, is given one or deleted. -/
theorem place_ok (h : Sound R 0 (insert nId X) s) (hinfo : s.mapInfo.lookup nId = some info)
    (hin : info.fInTried = false) (hle : info.nRefCount < ADDRMAN_NEW_BUCKETS_PER_ADDRESS)
    (slot : NewSlot)
    (hposition : R.getBucketPosition s.nKey info.addr.service true slot.1 = slot.2)
    (nNow : Int64) :
    ∃ t, s.place nId slot nNow = some t ∧ Sound R 0 X t ∧ t.nKey = s.nKey := by
  have hrefs := (h.tables.entry nId info hinfo).new hin
  unfold place
  by_cases hslot : s.vvNew slot = some nId
  · rw [if_pos hslot]
    refine ⟨s, rfl, ⟨h.tables, h.counted, h.placed.admit hinfo ?_⟩, rfl⟩
    have hcard : (slotsOf s.vvNew nId).card ≠ 0 := fun hzero =>
      card_slotsOf_eq_zero.mp hzero slot hslot
    omega
  rw [if_neg hslot]
  obtain ⟨fInsert, hyields⟩ := yields_ok h.tables slot info nNow
  simp only [bind_eq_bind, hinfo, bind_some, hyields, pure_def]
  cases fInsert with
  | true =>
    obtain ⟨u, hu, hsound, hcleared⟩ := clearNew_ok h slot
    obtain ⟨p, hp⟩ := lookup_of_map_forgetPos hinfo (hcleared.others nId hslot)
    obtain ⟨-, hkey, -⟩ := hcleared.frame
    rw [if_pos rfl, hu, bind_some, hp, bind_some]
    refine ⟨_, rfl, ⟨?_, ?_, ?_⟩, hkey⟩
    · refine hsound.tables.ref hp hcleared.empty hin ?_ hle rfl ⟨rfl, rfl⟩ ⟨rfl, rfl, rfl, rfl⟩
      rw [hkey]
      exact hposition
    · exact hsound.counted.replace hp rfl rfl ⟨rfl, rfl⟩
    · refine hsound.placed.replace rfl fun _ _ => ?_
      show 0 < info.nRefCount + 1
      omega
  | false =>
    rw [if_neg Bool.false_ne_true]
    by_cases hzero : info.nRefCount = 0
    · rw [if_pos hzero]
      obtain ⟨t, ht, htables, hw⟩ := delete_ok h.tables hinfo hin hzero
      exact ⟨t, ht, ⟨htables, h.counted.without hw, h.placed.without hw⟩, hw.frame.2⟩
    · rw [if_neg hzero]
      exact ⟨s, rfl, ⟨h.tables, h.counted, h.placed.admit hinfo (by omega)⟩, rfl⟩

theorem refresh_spec (info : CAddrInfo) (addr : CAddress) (nTimePenalty nNow : Int64)
    (nRandom : Nat) :
    (∃ nTime nServices, (refresh info addr nTimePenalty nNow nRandom).1 =
      { info with addr := { info.addr with nTime, nServices } }) ∧
    ((refresh info addr nTimePenalty nNow nRandom).2 = true →
      info.fInTried = false ∧ info.nRefCount ≠ ADDRMAN_NEW_BUCKETS_PER_ADDRESS) := by
  unfold refresh
  dsimp only
  refine ⟨?_, ?_⟩
  · split_ifs <;> exact ⟨_, _, rfl⟩
  · intro hslot
    split_ifs at hslot with hold htried hrefs
    exact ⟨by simpa using htried, hrefs⟩

theorem Sound.create (h : Sound R 0 ∅ s) (addr : CAddress) (source : CNetAddr)
    (haddr : s.mapAddr addr.service.ip = none) :
    Sound R 0 (insert s.nIdCount ∅) { s.create addr source with nNew := s.nNew + 1 } := by
  have hnone := h.tables.lookup_nIdCount
  refine ⟨(h.tables.create addr source haddr).withCounts _ _, ⟨?_, ?_⟩, ?_⟩
  · show s.nTried = tally triedWeight (s.mapInfo.insert s.nIdCount _)
    rw [tally_insert_new hnone, h.counted.tried]
    exact (Int.zero_add _).symm
  · show s.nNew + 1 + 0 = tally newWeight (s.mapInfo.insert s.nIdCount _)
    rw [tally_insert_new hnone, ← h.counted.new]
    show s.nNew + 1 + 0 = 1 + (s.nNew + 0)
    omega
  · exact h.placed.exempt fun _ => lookup_insert_ne

theorem add_ok (h : Sound R 0 ∅ s) (addr : CAddress) (source : CNetAddr)
    (nTimePenalty nNow : Int64) (nRandom : Nat) :
    ∃ fNew t, s.add_ R addr source nTimePenalty nNow nRandom = some (fNew, t) ∧
      Sound R 0 ∅ t ∧ t.nKey = s.nKey := by
  unfold add_
  split_ifs
  · cases hfind : s.find addr.service.ip with
    | none =>
      have hsound := h.create
        { addr with nTime := (max 0 (toTime addr.nTime - nTimePenalty)).toUInt64.toUInt32 } source
        (h.tables.mapAddr_of_find hfind)
      have hrefs : (0 : Int) < ADDRMAN_NEW_BUCKETS_PER_ADDRESS := by decide
      obtain ⟨t, ht, hplaced, hkey⟩ := place_ok hsound (lookup_insert _) rfl hrefs
        (R.newSlot s.nKey addr.service source) rfl nNow
      exact ⟨true, t, congrArg (Option.map _) ht, hplaced, hkey⟩
    | some found =>
      obtain ⟨nId, info⟩ := found
      have hinfo := lookup_of_find hfind
      have hentry := h.tables.entry nId info hinfo
      obtain ⟨⟨nTime, nServices, hrefreshed⟩, hslot⟩ :=
        refresh_spec info addr nTimePenalty nNow nRandom
      dsimp only
      cases hr : refresh info addr nTimePenalty nNow nRandom with
      | mk info' fSlot =>
        rw [hr] at hrefreshed hslot
        subst hrefreshed
        have hsound : Sound R 0 ∅ (s.setInfo nId
            { info with addr := { info.addr with nTime, nServices } }) :=
          h.setInfo hinfo rfl rfl rfl rfl hentry.lastTry (.inl rfl)
        cases fSlot with
        | false => exact ⟨false, _, rfl, hsound, rfl⟩
        | true =>
          obtain ⟨hin, hrefs⟩ := hslot rfl
          have hle := hentry.refs_le
          obtain ⟨t, ht, hplaced, hkey⟩ := place_ok
            ⟨hsound.tables, hsound.counted, hsound.placed.exempt fun _ _ => rfl⟩
            (lookup_insert _) hin (lt_of_le_of_ne hle hrefs) (R.newSlot s.nKey info.addr.service source) rfl nNow
          exact ⟨false, t, congrArg (Option.map _) ht, hplaced, hkey⟩
  · exact ⟨false, s, rfl, h, rfl⟩

theorem touch_ok (h : Sound R d X s) (addr : CService) {f : CAddrInfo → CAddrInfo}
    (hf : ∀ info, (f info).addr.service = info.addr.service ∧
      (f info).nRandomPos = info.nRandomPos ∧ (f info).nRefCount = info.nRefCount ∧
      (f info).fInTried = info.fInTried ∧ (f info).nLastSuccess = info.nLastSuccess ∧
      ((f info).nLastTry = info.nLastTry ∨ 0 ≤ (f info).nLastTry)) :
    Sound R d X (s.touch addr f) ∧ (s.touch addr f).nKey = s.nKey := by
  unfold touch
  cases hfind : s.find addr.ip with
  | none => exact ⟨h, rfl⟩
  | some found =>
    obtain ⟨nId, info⟩ := found
    have hinfo := lookup_of_find hfind
    obtain ⟨hservice, hpos, hrefs, htried, hsuccess, hlast⟩ := hf info
    dsimp only
    split_ifs
    · exact ⟨h, rfl⟩
    · refine ⟨h.setInfo hinfo hservice hpos hrefs htried ?_ (.inl hsuccess), rfl⟩
      rcases hlast with hsame | hpositive
      · rw [hsame]
        exact (h.tables.entry nId info hinfo).lastTry
      · exact hpositive

theorem attempt_ok (h : Sound R d X s) (addr : CService) (htime : 0 < nTime) :
    Sound R d X (s.attempt_ addr nTime) ∧ (s.attempt_ addr nTime).nKey = s.nKey :=
  touch_ok h addr fun _ => ⟨rfl, rfl, rfl, rfl, rfl, .inr (Int64.le_of_lt htime)⟩

theorem connected_ok (h : Sound R d X s) (addr : CService) (nTime : Int64) :
    Sound R d X (s.connected_ addr nTime) ∧ (s.connected_ addr nTime).nKey = s.nKey := by
  refine touch_ok h addr fun info => ?_
  split_ifs
  · exact ⟨rfl, rfl, rfl, rfl, rfl, .inl rfl⟩
  · exact ⟨rfl, rfl, rfl, rfl, rfl, .inl rfl⟩

theorem Sound.reorder (h : Sound R d X s) (ht : Tables R t) (hr : Reordered s t) :
    Sound R d X t := by
  refine ⟨ht, ⟨?_, ?_⟩, fun k info hinfo hin hk => ?_⟩
  · rw [hr.counts.2, h.counted.tried, hr.weights triedWeight fun _ _ _ => rfl]
  · rw [hr.counts.1, h.counted.new, hr.weights newWeight fun _ _ _ => rfl]
  · obtain ⟨p, hp⟩ := hr.lookup hinfo
    have hold := h.placed k _ hp
    exact hold hin hk

theorem getAddrLoop_ok (nNow : Int64) (nNodes : Nat) (random : Nat → Nat) (turns n : Nat)
    (vAddr : List CAddress) (h : Sound R d X s) (hturns : n + turns ≤ s.vRandom.length) :
    ∃ r t, getAddrLoop nNow nNodes random turns n vAddr s = some (r, t) ∧ Sound R d X t ∧
      t.nKey = s.nKey := by
  induction turns generalizing n vAddr s with
  | zero => exact ⟨vAddr, s, rfl, h, rfl⟩
  | succ turns ih =>
    rw [getAddrLoop]
    split_ifs
    · exact ⟨vAddr, s, rfl, h, rfl⟩
    · have hn : n < s.vRandom.length := by omega
      have hrandom : random n % (s.vRandom.length - n) + n < s.vRandom.length := by
        have hlt := Nat.mod_lt (random n) (show 0 < s.vRandom.length - n by omega)
        omega
      obtain ⟨t, ht, htables, hr, -⟩ := swapRandom_ok h.tables hn hrandom
      have hlt : n < t.vRandom.length := by rw [hr.size]; exact hn
      have hat : t.vRandom[n]? = some t.vRandom[n] := List.getElem?_eq_getElem hlt
      obtain ⟨ai, hai, -⟩ := bind_eq_some_iff.mp ((htables.random _ n).mpr hat)
      obtain ⟨r, u, hu, hsound, hkey⟩ := ih (n + 1)
        (if ai.isTerrible nNow then vAddr else vAddr ++ [ai.addr]) (h.reorder htables hr)
        (by rw [hr.size]; omega)
      refine ⟨r, u, ?_, hsound, hkey.trans hr.frame.2.2⟩
      simp only [bind_eq_bind, ht, bind_some, hat, hai, hu]

theorem selectLoop_ok {S : Type} {table : S → Option Nat}
    (htable : ∀ slot nId, table slot = some nId → ∃ info, s.mapInfo.lookup nId = some info)
    (draws : List (S × Bool)) : ∃ r, s.selectLoop table draws = some r := by
  induction draws with
  | nil => exact ⟨none, rfl⟩
  | cons draw draws ih =>
    obtain ⟨slot, fTake⟩ := draw
    rw [selectLoop]
    cases hslot : table slot with
    | none => exact ih
    | some nId =>
      obtain ⟨info, hinfo⟩ := htable slot nId hslot
      simp only [bind_eq_bind, hinfo, bind_some]
      split_ifs
      · exact ⟨_, rfl⟩
      · exact ih

theorem select_ok (h : Tables R s) (newOnly fCoin : Bool) (tried : List (TriedSlot × Bool))
    (new : List (NewSlot × Bool)) : ∃ r, s.select_ newOnly fCoin tried new = some r := by
  unfold select_
  split_ifs
  · exact ⟨_, rfl⟩
  · exact ⟨_, rfl⟩
  · refine selectLoop_ok (fun slot nId hslot => ?_) tried
    obtain ⟨info, hinfo, -⟩ := h.triedSlot slot nId hslot
    exact ⟨info, hinfo⟩
  · refine selectLoop_ok (fun slot nId hslot => ?_) new
    obtain ⟨info, hinfo, -⟩ := h.newSlot slot nId hslot
    exact ⟨info, hinfo⟩

theorem getAddr_ok (h : Sound R d X s) (nNow : Int64) (random : Nat → Nat) :
    ∃ vAddr t, s.getAddr_ nNow random = some (vAddr, t) ∧ Sound R d X t ∧ t.nKey = s.nKey :=
  getAddrLoop_ok nNow _ random s.vRandom.length 0 [] h (Nat.le_of_eq (Nat.zero_add _))

end CAddrMan

end Alqo
