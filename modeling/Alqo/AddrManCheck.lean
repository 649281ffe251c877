import Alqo.AddrManCalls
import Alqo.Lib.Checks

/-!
# The consistency check of the address manager (addrman.cpp)

`Check_` is compiled into debug builds only. Its codes are kept; `.ok ()` is the code 0.
-/

namespace Alqo
open Lib.BackPointers Lib.SlotTable Lib.Tally Lib.Runs Lib.Fallible Lib.Checks List AList Option

namespace CAddrMan

structure Unseen where
  setTried : Finset Nat := ∅
  mapNew : AList fun _ : Nat => Int := ∅

def Unseen.note (u : Unseen) (n : Nat) (info : CAddrInfo) : Unseen :=
  if info.fInTried then { u with setTried := insert n u.setTried }
  else { u with mapNew := u.mapNew.insert n info.nRefCount }

def checkStatus (info : CAddrInfo) : Except Int Unit :=
  if info.fInTried then do
    ensure (info.nLastSuccess ≠ 0) (-1)
    ensure (info.nRefCount = 0) (-2)
  else do
    ensure (0 ≤ info.nRefCount ∧ info.nRefCount ≤ ADDRMAN_NEW_BUCKETS_PER_ADDRESS) (-3)
    ensure (info.nRefCount ≠ 0) (-4)

/- An address that `mapAddr` does not have is given the id 0 -/
def checkIndexes (s : CAddrMan) (n : Nat) (info : CAddrInfo) : Except Int Unit := do
  ensure ((s.mapAddr info.addr.service.ip).getD 0 = n) (-5)
  ensure (0 ≤ info.nRandomPos ∧ info.nRandomPos < s.vRandom.length ∧
    s.vRandom[info.nRandomPos.toNat]? = some n) (-14)
  ensure (0 ≤ info.nLastTry) (-6)
  ensure (0 ≤ info.nLastSuccess) (-8)

/- One turn of the first loop. -/
def checkEntry (s : CAddrMan) (_ : Nat) (entry : Sigma fun _ : Nat => CAddrInfo) (u : Unseen) :
    Except Int Unseen := do
  checkStatus entry.2
  checkIndexes s entry.1 entry.2
  return u.note entry.1 entry.2

/- What is said of `mapInfo[n]`, which is there for every id that was noted. -/
def ensureInfo (s : CAddrMan) (n : Nat) (p : CAddrInfo → Bool) (code : Int) : Except Int Unit :=
  ensure ((s.mapInfo.lookup n).any p) code

variable (R : AddrRules)

def checkTried (s : CAddrMan) (_ : Nat) (slot : TriedSlot) (setTried : Finset Nat) :
    Except Int (Finset Nat) :=
  match s.vvTried slot with
  | none => .ok setTried
  | some n => do
    ensure (n ∈ setTried) (-11)
    s.ensureInfo n (fun info => R.getTriedBucket s.nKey info.addr.service = slot.1) (-17)
    s.ensureInfo n
      (fun info => R.getBucketPosition s.nKey info.addr.service false slot.1 = slot.2) (-18)
    return setTried.erase n

def checkNew (s : CAddrMan) (_ : Nat) (slot : NewSlot) (mapNew : AList fun _ : Nat => Int) :
    Except Int (AList fun _ : Nat => Int) :=
  match s.vvNew slot with
  | none => .ok mapNew
  | some n =>
    match mapNew.lookup n with
    | none => .error (-12)
    | some count => do
      s.ensureInfo n
        (fun info => R.getBucketPosition s.nKey info.addr.service true slot.1 = slot.2) (-19)
      return if count - 1 = 0 then mapNew.erase n else mapNew.insert n (count - 1)

def slots (buckets size : Nat) : List (Fin buckets × Fin size) :=
  List.finRange buckets ×ˢ List.finRange size

def check_ (s : CAddrMan) : Except Int Unit := do
  ensure (s.vRandom.length = s.nTried + s.nNew) (-7)
  let u ← runFrom s.checkEntry 0 s.mapInfo.entries {}
  ensure (u.setTried.card = s.nTried) (-9)
  ensure (u.mapNew.entries.length = s.nNew) (-10)
  let setTried ← runFrom (s.checkTried R) 0
    (slots ADDRMAN_TRIED_BUCKET_COUNT ADDRMAN_BUCKET_SIZE) u.setTried
  let mapNew ← runFrom (s.checkNew R) 0
    (slots ADDRMAN_NEW_BUCKET_COUNT ADDRMAN_BUCKET_SIZE) u.mapNew
  ensure (setTried.card = 0) (-13)
  ensure (mapNew.entries.length = 0) (-15)
  ensure (s.nKey ≠ 0) (-16)

variable {R} {s : CAddrMan} {n : Nat} {info : CAddrInfo}

theorem mem_slots {buckets size : Nat} (slot : Fin buckets × Fin size) :
    slot ∈ slots buckets size :=
  mem_product.mpr ⟨mem_finRange _, mem_finRange _⟩

theorem slots_nodup (buckets size : Nat) : (slots buckets size).Nodup :=
  (nodup_finRange _).product (nodup_finRange _)

theorem Sound.checkStatus (h : Sound R 0 ∅ s) (hinfo : s.mapInfo.lookup n = some info) :
    checkStatus info = .ok () := by
  have hentry := h.tables.entry n info hinfo
  unfold CAddrMan.checkStatus
  by_cases hin : info.fInTried = true
  · obtain ⟨hrefs, hsuccess, -⟩ := hentry.tried hin
    rw [if_pos hin, bind_ok_iff]
    exact ⟨(), ensure_ok_iff.mpr (decide_eq_true hsuccess), ensure_ok_iff.mpr (decide_eq_true hrefs)⟩
  · have hpositive := h.placed n info hinfo (Bool.not_eq_true _ ▸ hin) (Set.notMem_empty n)
    rw [if_neg hin, bind_ok_iff]
    refine ⟨(), ensure_ok_iff.mpr (decide_eq_true ⟨?_, hentry.refs_le⟩),
      ensure_ok_iff.mpr (decide_eq_true ?_)⟩
    · omega
    · omega

theorem Tables.checkIndexes (h : Tables R s) (hinfo : s.mapInfo.lookup n = some info) :
    s.checkIndexes n info = .ok () := by
  have hentry := h.entry n info hinfo
  have hid : s.mapAddr info.addr.service.ip = some n := (h.address _ n).mpr ⟨info, hinfo, rfl⟩
  have hpos := h.posOf_eq hinfo
  have hlt := h.random.lt hpos
  have hposition := hentry.position
  have hat : s.vRandom[info.nRandomPos.toNat]? = some n := (h.random n _).mp hpos
  simp only [CAddrMan.checkIndexes, bind_ok_iff, ensure_ok_iff, decide_eq_true_eq]
  refine ⟨(), ?_, (), ⟨hposition, ?_, hat⟩, (), hentry.lastTry, hentry.lastSuccess⟩
  · rw [hid, getD_some]
  · omega

structure Noted (seen : List (Sigma fun _ : Nat => CAddrInfo)) (u : Unseen) : Prop where
  tried : ∀ n, n ∈ u.setTried ↔ ∃ info, ⟨n, info⟩ ∈ seen ∧ info.fInTried = true
  new : ∀ n count, u.mapNew.lookup n = some count ↔
    ∃ info, ⟨n, info⟩ ∈ seen ∧ info.fInTried = false ∧ info.nRefCount = count
  countTried : (u.setTried.card : Int) = (seen.map fun e => triedWeight e.1 e.2).sum
  countNew : (u.mapNew.entries.length : Int) = (seen.map fun e => newWeight e.1 e.2).sum

theorem Noted.nil : Noted [] {} where
  tried := fun n => by simp
  new := fun n count => by simp
  countTried := rfl
  countNew := rfl

variable {seen : List (Sigma fun _ : Nat => CAddrInfo)} {u : Unseen}

theorem exists_mem_concat {k : Nat} {P : CAddrInfo → Prop} :
    (∃ x, ⟨k, x⟩ ∈ seen ++ [⟨n, info⟩] ∧ P x) ↔ (∃ x, ⟨k, x⟩ ∈ seen ∧ P x) ∨ k = n ∧ P info := by
  constructor
  · rintro ⟨other, hother, hP⟩
    rcases mem_append.mp hother with hseen | hlast
    · exact .inl ⟨other, hseen, hP⟩
    · cases mem_singleton.mp hlast
      exact .inr ⟨rfl, hP⟩
  · rintro (⟨other, hother, hP⟩ | ⟨rfl, hP⟩)
    · exact ⟨other, mem_append_left _ hother, hP⟩
    · exact ⟨info, mem_append_right _ (mem_singleton_self _), hP⟩

theorem Noted.note_tried (h : Noted seen u) (hnew : ∀ other, ⟨n, other⟩ ∉ seen)
    (hin : info.fInTried = true) : Noted (seen ++ [⟨n, info⟩]) (u.note n info) := by
  have hnot : n ∉ u.setTried := fun hmem => by
    obtain ⟨other, hother, -⟩ := (h.tried n).mp hmem
    exact hnew other hother
  obtain ⟨htried, hzero⟩ := weights_of_tried info hin n
  rw [Unseen.note, if_pos hin]
  refine ⟨fun k => ?_, fun k count => ?_, ?_, ?_⟩
  · rw [Finset.mem_insert, h.tried, exists_mem_concat, and_iff_left hin, or_comm]
  · rw [h.new, exists_mem_concat, hin]
    exact (or_iff_left fun hlast => nomatch hlast.2.1).symm
  · have hcard := h.countTried
    rw [Finset.card_insert_of_notMem hnot, map_append, sum_append, map_singleton,
      sum_singleton, htried]
    omega
  · rw [map_append, sum_append, map_singleton, sum_singleton, hzero,
      ← h.countNew]
    exact (Int.add_zero _).symm

theorem Noted.note_new (h : Noted seen u) (hnew : ∀ other, ⟨n, other⟩ ∉ seen)
    (hin : info.fInTried = false) : Noted (seen ++ [⟨n, info⟩]) (u.note n info) := by
  have hnone : u.mapNew.lookup n = none := by
    cases hlookup : u.mapNew.lookup n with
    | none => rfl
    | some count =>
      obtain ⟨other, hother, -⟩ := (h.new n count).mp hlookup
      exact absurd hother (hnew other)
  obtain ⟨hzero, hone⟩ := weights_of_new info hin n
  rw [Unseen.note, if_neg (Bool.not_eq_true _ ▸ hin)]
  refine ⟨fun k => ?_, fun k count => ?_, ?_, ?_⟩
  · rw [h.tried, exists_mem_concat, hin]
    exact (or_iff_left fun hlast => nomatch hlast.2).symm
  · rw [exists_mem_concat, ← h.new]
    by_cases hk : k = n
    · rw [hk, lookup_insert, hnone]
      simp [hin]
    · rw [lookup_insert_ne hk]
      exact (or_iff_left fun hlast => hk hlast.1).symm
  · rw [map_append, sum_append, map_singleton, sum_singleton, hzero,
      ← h.countTried]
    exact (Int.add_zero _).symm
  · have hcount := h.countNew
    rw [lookup_eq_none] at hnone
    rw [entries_insert_of_notMem hnone, map_append, sum_append,
      map_singleton, sum_singleton, hone, length_cons]
    omega

theorem noted_of_run (h : runFrom s.checkEntry 0 s.mapInfo.entries {} = .ok u) :
    Noted s.mapInfo.entries u ∧
      ∀ e ∈ s.mapInfo.entries, checkStatus e.2 = .ok () ∧ s.checkIndexes e.1 e.2 = .ok () := by
  -- the keys of a prefix are without duplicates only as far as those of the whole are
  have hrun := runFrom_induct (fun seen u => (seen.NodupKeys → Noted seen u) ∧
      ∀ e ∈ seen, checkStatus e.2 = .ok () ∧ s.checkIndexes e.1 e.2 = .ok ())
    (fun seen e u u' hseen hstep => ?_) [] ⟨fun _ => Noted.nil, nofun⟩ h
  · exact ⟨hrun.1 s.mapInfo.nodupKeys, hrun.2⟩
  · obtain ⟨n, info⟩ := e
    obtain ⟨hnoted, hchecks⟩ := hseen
    simp only [checkEntry, bind_ok_iff] at hstep
    obtain ⟨_, hstatus, _, hindexes, hu⟩ := hstep
    cases hu
    refine ⟨fun hnodup => ?_, fun e he => ?_⟩
    · rw [List.NodupKeys, List.keys, map_append, nodup_append] at hnodup
      have hnew : ∀ other, ⟨n, other⟩ ∉ seen := fun other hother =>
        hnodup.2.2 n (List.mem_map_of_mem hother) n (mem_singleton_self _) rfl
      cases hin : info.fInTried with
      | true => exact (hnoted hnodup.1).note_tried hnew hin
      | false => exact (hnoted hnodup.1).note_new hnew hin
    · rcases mem_append.mp he with hold | hlast
      · exact hchecks e hold
      · cases mem_singleton.mp hlast
        exact ⟨hstatus, hindexes⟩

theorem Sound.checkEntries (h : Sound R 0 ∅ s) :
    ∃ u, runFrom s.checkEntry 0 s.mapInfo.entries {} = .ok u ∧ Noted s.mapInfo.entries u := by
  have hstep : ∀ i e rest u, (∀ e' ∈ e :: rest, s.mapInfo.lookup e'.1 = some e'.2) →
      ∃ u', s.checkEntry i e u = .ok u' ∧ ∀ e' ∈ rest, s.mapInfo.lookup e'.1 = some e'.2 := by
    intro i e rest u hall
    obtain ⟨hinfo, hrest⟩ := forall_mem_cons.mp hall
    refine ⟨u.note e.1 e.2, ?_, hrest⟩
    rw [CAddrMan.checkEntry, h.checkStatus hinfo, h.tables.checkIndexes hinfo]
    rfl
  obtain ⟨u, hu, -⟩ := runFrom_total
    (fun rest _ => ∀ e ∈ rest, s.mapInfo.lookup e.1 = some e.2) hstep 0 s.mapInfo.entries {}
    fun e he => mem_lookup_iff.mpr he
  exact ⟨u, hu, (noted_of_run hu).1⟩

variable {p : CAddrInfo → Bool}

theorem ensureInfo_ok (hinfo : s.mapInfo.lookup n = some info) (hp : p info = true) (code : Int) :
    s.ensureInfo n p code = .ok () := by
  rw [ensureInfo, ensure_ok_iff, hinfo]
  exact hp

theorem Tables.triedSlot_unique (h : Tables R s) {x y : TriedSlot} (hx : s.vvTried x = some n)
    (hy : s.vvTried y = some n) : x = y := by
  obtain ⟨info, hinfo, -, hslot⟩ := h.triedSlot x n hx
  obtain ⟨other, hother, -, hslot'⟩ := h.triedSlot y n hy
  rw [hinfo] at hother
  cases hother
  exact hslot.symm.trans hslot'

def HeldIn (table : TriedSlot → Option Nat) (l : List TriedSlot) (set : Finset Nat) : Prop :=
  ∀ n, n ∈ set ↔ ∃ slot ∈ l, table slot = some n

variable {set : Finset Nat}

theorem Tables.checkTried (h : Tables R s) {slot : TriedSlot} {rest : List TriedSlot}
    (hnodup : (slot :: rest).Nodup) (hset : HeldIn s.vvTried (slot :: rest) set) (i : Nat) :
    ∃ set', s.checkTried R i slot set = .ok set' ∧ HeldIn s.vvTried rest set' := by
  unfold CAddrMan.checkTried
  cases hslot : s.vvTried slot with
  | none =>
    refine ⟨set, rfl, fun n => ?_⟩
    rw [hset n, exists_mem_cons_iff, hslot]
    exact or_iff_right nofun
  | some k =>
    obtain ⟨info, hinfo, -, hat⟩ := h.triedSlot slot k hslot
    have hk : k ∈ set := (hset k).mpr ⟨slot, mem_cons_self, hslot⟩
    refine ⟨set.erase k, ?_, fun n => ?_⟩
    · dsimp only
      rw [ensure_ok_iff (u := ()) |>.mpr (decide_eq_true hk), ensureInfo_ok hinfo,
        ensureInfo_ok hinfo]
      · rfl
      · exact decide_eq_true (by rw [← hat]; rfl)
      · exact decide_eq_true (by rw [← hat]; rfl)
    · rw [Finset.mem_erase, hset n, exists_mem_cons_iff, hslot]
      constructor
      · rintro ⟨hne, hself | hlater⟩
        · exact absurd (Option.some.inj hself).symm hne
        · exact hlater
      · rintro ⟨x, hx, hxn⟩
        refine ⟨?_, .inr ⟨x, hx, hxn⟩⟩
        rintro rfl
        rw [h.triedSlot_unique hxn hslot] at hx
        exact (nodup_cons.mp hnodup).1 hx

variable {l : List TriedSlot}

theorem Tables.checkTriedSlots (h : Tables R s) (hnodup : l.Nodup) (hset : HeldIn s.vvTried l set) :
    runFrom (s.checkTried R) 0 l set = .ok ∅ := by
  have hstep : ∀ i slot rest set, (slot :: rest).Nodup ∧ HeldIn s.vvTried (slot :: rest) set →
      ∃ set', s.checkTried R i slot set = .ok set' ∧
        List.Nodup rest ∧ HeldIn s.vvTried rest set' := by
    rintro i slot rest set ⟨hnodup, hset⟩
    obtain ⟨set', hok, hset'⟩ := h.checkTried hnodup hset i
    exact ⟨set', hok, (nodup_cons.mp hnodup).2, hset'⟩
  obtain ⟨final, hfinal, -, hempty⟩ := runFrom_total
    (fun rest set => rest.Nodup ∧ HeldIn s.vvTried rest set) hstep 0 l set ⟨hnodup, hset⟩
  have hnone : final = ∅ := by
    rw [Finset.eq_empty_iff_forall_notMem]
    intro n hmem
    obtain ⟨slot, hslot, -⟩ := (hempty n).mp hmem
    cases hslot
  rw [hfinal, hnone]

def CountsLeft (table : NewSlot → Option Nat) (l : List NewSlot)
    (map : AList fun _ : Nat => Int) : Prop :=
  ∀ n, map.lookup n = if remaining table l n = 0 then none else some (remaining table l n : Int)

theorem Tables.checkNew (h : Tables R s) {slot : NewSlot} {rest : List NewSlot}
    {map : AList fun _ : Nat => Int} (hmap : CountsLeft s.vvNew (slot :: rest) map) (i : Nat) :
    ∃ map', s.checkNew R i slot map = .ok map' ∧ CountsLeft s.vvNew rest map' := by
  unfold CAddrMan.checkNew
  cases hslot : s.vvNew slot with
  | none =>
    refine ⟨map, rfl, fun n => ?_⟩
    rw [hmap n, remaining_cons_ne (by rw [hslot]; exact nofun)]
  | some k =>
    obtain ⟨info, hinfo, -, hat⟩ := h.newSlot slot k hslot
    have hk := hmap k
    rw [remaining_cons_eq hslot, if_neg (Nat.succ_ne_zero _)] at hk
    dsimp only
    rw [hk]
    rw [ensureInfo_ok hinfo (decide_eq_true hat)]
    refine ⟨_, rfl, fun n => ?_⟩
    by_cases hn : n = k
    · subst hn
      split_ifs with hlast hzero
      · rw [lookup_erase]
      · omega
      · omega
      · rw [lookup_insert]
        congr 1
        omega
    · have hne : s.vvNew slot ≠ some n := by
        rw [hslot]
        exact fun heq => hn (Option.some.inj heq).symm
      have hother := hmap n
      rw [remaining_cons_ne hne] at hother
      rw [← hother]
      split_ifs
      · rw [lookup_erase_ne hn]
      · rw [lookup_insert_ne hn]

theorem Tables.checkNewSlots (h : Tables R s) {l : List NewSlot}
    {map : AList fun _ : Nat => Int} (hmap : CountsLeft s.vvNew l map) :
    ∃ final, runFrom (s.checkNew R) 0 l map = .ok final ∧ final.entries = [] := by
  obtain ⟨final, hfinal, hempty⟩ := runFrom_total (CountsLeft s.vvNew)
    (fun i _ _ _ hmap => h.checkNew hmap i) 0 l map hmap
  refine ⟨final, hfinal, eq_nil_iff_forall_not_mem.mpr ?_⟩
  rintro ⟨n, count⟩ hmem
  have hnone := hempty n
  rw [mem_lookup_iff.mpr hmem] at hnone
  cases hnone

theorem Noted.heldIn (h : Tables R s) (hnoted : Noted s.mapInfo.entries u) :
    HeldIn s.vvTried (slots ADDRMAN_TRIED_BUCKET_COUNT ADDRMAN_BUCKET_SIZE) u.setTried := by
  intro n
  rw [hnoted.tried]
  constructor
  · rintro ⟨info, hmem, hin⟩
    obtain ⟨-, -, hslot⟩ := (h.entry n info (mem_lookup_iff.mpr hmem)).tried hin
    exact ⟨_, mem_slots _, hslot⟩
  · rintro ⟨slot, -, hslot⟩
    obtain ⟨info, hinfo, hin, -⟩ := h.triedSlot slot n hslot
    exact ⟨info, mem_lookup_iff.mp hinfo, hin⟩

theorem Noted.countsLeft (h : Sound R 0 ∅ s) (hnoted : Noted s.mapInfo.entries u) :
    CountsLeft s.vvNew (slots ADDRMAN_NEW_BUCKET_COUNT ADDRMAN_BUCKET_SIZE) u.mapNew := by
  intro n
  rw [remaining_all (slots_nodup _ _) mem_slots]
  split_ifs with hzero
  · cases hlookup : u.mapNew.lookup n with
    | none => rfl
    | some count =>
      obtain ⟨info, hmem, hin, -⟩ := (hnoted.new n count).mp hlookup
      have hinfo := mem_lookup_iff.mpr hmem
      have hpositive := h.placed n info hinfo hin (Set.notMem_empty n)
      rw [(h.tables.entry n info hinfo).new hin, hzero] at hpositive
      cases hpositive
  · obtain ⟨slot, hslot⟩ := not_forall.mp (mt card_slotsOf_eq_zero.mpr hzero)
    obtain ⟨info, hinfo, hin, -⟩ := h.tables.newSlot slot n (not_not.mp hslot)
    refine (hnoted.new n _).mpr ⟨info, mem_lookup_iff.mp hinfo, hin, ?_⟩
    exact (h.tables.entry n info hinfo).new hin

theorem length_eq_weights (l : List (Sigma fun _ : Nat => CAddrInfo)) : (l.length : Int) =
      (l.map fun e => triedWeight e.1 e.2).sum + (l.map fun e => newWeight e.1 e.2).sum := by
  induction l with
  | nil => rfl
  | cons e l ih =>
    rw [length_cons, map_cons, map_cons, sum_cons, sum_cons]
    cases hin : e.2.fInTried with
    | true =>
      obtain ⟨hone, hzero⟩ := weights_of_tried e.2 hin e.1
      omega
    | false =>
      obtain ⟨hzero, hone⟩ := weights_of_new e.2 hin e.1
      omega

theorem Tables.length_vRandom (h : Tables R s) : s.vRandom.length = s.mapInfo.entries.length := by
  have hperm : s.vRandom.Perm s.mapInfo.keys := by
    refine (perm_ext_iff_of_nodup h.random.nodup s.mapInfo.keys_nodup).mpr fun n => ?_
    rw [h.random.mem_iff, ← AList.mem_keys, ← lookup_isSome, isSome_iff_exists]
    constructor
    · rintro ⟨i, hi⟩
      obtain ⟨info, hinfo, -⟩ := bind_eq_some_iff.mp hi
      exact ⟨info, hinfo⟩
    · rintro ⟨info, hinfo⟩
      exact ⟨_, h.posOf_eq hinfo⟩
  rw [hperm.length_eq, AList.keys, List.keys, length_map]

theorem Sound.check_ok (h : Sound R 0 ∅ s) (hkey : s.nKey ≠ 0) : s.check_ R = .ok () := by
  obtain ⟨u, hu, hnoted⟩ := h.checkEntries
  have htried := h.tables.checkTriedSlots (slots_nodup _ _) (hnoted.heldIn h.tables)
  obtain ⟨mapNew, hnew, hempty⟩ := h.tables.checkNewSlots (hnoted.countsLeft h)
  have hlength := length_eq_weights s.mapInfo.entries
  have hcountTried : (u.setTried.card : Int) = s.nTried := by
    rw [hnoted.countTried, h.counted.tried, tally]
  have hcountNew : (u.mapNew.entries.length : Int) = s.nNew := by
    rw [hnoted.countNew, ← Int.add_zero s.nNew, h.counted.new, tally]
  have hsize : (s.vRandom.length : Int) = s.nTried + s.nNew := by
    rw [h.tables.length_vRandom, hlength, ← hcountTried, ← hcountNew, hnoted.countTried,
      hnoted.countNew]
  simp only [check_, bind_ok_iff, ensure_ok_iff, decide_eq_true_eq]
  refine ⟨(), hsize, u, hu, (), hcountTried, (), hcountNew, ∅, htried, mapNew, hnew,
    (), Finset.card_empty, (), ?_, hkey⟩
  rw [hempty]
  rfl

theorem check_ok_cases (h : s.check_ R = .ok ()) :
    s.nKey ≠ 0 ∧ (s.vRandom = [] → s.mapInfo.entries = []) := by
  simp only [check_, bind_ok_iff, ensure_ok_iff, decide_eq_true_eq] at h
  obtain ⟨-, -, u, hu, -, -, -, -, -, -, -, -, -, -, -, -, hkey⟩ := h
  refine ⟨hkey, fun hempty => ?_⟩
  cases hentries : s.mapInfo.entries with
  | nil => rfl
  | cons e rest =>
    rw [hentries] at hu
    obtain ⟨u', hfirst, -⟩ := runFrom_cons_ok_iff.mp hu
    simp only [CAddrMan.checkEntry, CAddrMan.checkIndexes, bind_ok_iff, ensure_ok_iff,
      decide_eq_true_eq] at hfirst
    obtain ⟨-, -, -, ⟨-, -, -, ⟨hnonneg, hlt, -⟩, -⟩, -⟩ := hfirst
    rw [hempty, length_nil] at hlt
    omega

structure Checked (R : AddrRules) (s : CAddrMan) : Prop where
  entry : ∀ n info, s.mapInfo.lookup n = some info →
    checkStatus info = .ok () ∧ s.checkIndexes n info = .ok ()
  refs : ∀ n info, s.mapInfo.lookup n = some info → info.fInTried = false →
    info.nRefCount = (slotsOf s.vvNew n).card
  tried : ∀ n info, s.mapInfo.lookup n = some info → info.fInTried = true →
    s.vvTried (R.triedSlot s.nKey info.addr.service) = some n
  newSlot : ∀ slot n, s.vvNew slot = some n → ∃ info, s.mapInfo.lookup n = some info ∧
    info.fInTried = false ∧ R.getBucketPosition s.nKey info.addr.service true slot.1 = slot.2
  triedSlot : ∀ slot n, s.vvTried slot = some n → ∃ info, s.mapInfo.lookup n = some info ∧
    info.fInTried = true ∧ R.triedSlot s.nKey info.addr.service = slot
  counted : Counted 0 s
  key : s.nKey ≠ 0

theorem ensureInfo_ok_iff {code : Int} {x : Unit} :
    s.ensureInfo n p code = .ok x ↔ ∃ info, s.mapInfo.lookup n = some info ∧ p info = true := by
  rw [ensureInfo, ensure_ok_iff, Option.any_eq_true]

structure TriedSeen (R : AddrRules) (s : CAddrMan) (before : Finset Nat) (seen : List TriedSlot)
    (set : Finset Nat) : Prop where
  held : ∀ slot ∈ seen, ∀ n, s.vvTried slot = some n → n ∈ before ∧
    ∀ info, s.mapInfo.lookup n = some info → R.triedSlot s.nKey info.addr.service = slot
  subset : set ⊆ before
  struck : ∀ n ∈ before, n ∉ set → ∃ slot ∈ seen, s.vvTried slot = some n

theorem triedSeen_of_run {before final : Finset Nat}
    (h : runFrom (s.checkTried R) 0 l before = .ok final) : TriedSeen R s before l final := by
  refine runFrom_induct (TriedSeen R s before) (fun seen slot set set' hseen hstep => ?_) []
    ⟨nofun, Finset.Subset.refl _, fun n hn hnot => absurd hn hnot⟩ h
  unfold checkTried at hstep
  cases hslot : s.vvTried slot with
  | none =>
    rw [hslot] at hstep
    cases hstep
    refine ⟨forall_mem_append.mpr ⟨hseen.held, ?_⟩, hseen.subset, fun n hn hnot => ?_⟩
    · rw [forall_mem_singleton, hslot]
      rintro n ⟨⟩
    · obtain ⟨x, hx, hxn⟩ := hseen.struck n hn hnot
      exact ⟨x, mem_append_left _ hx, hxn⟩
  | some k =>
    rw [hslot] at hstep
    simp only [bind_ok_iff, ensure_ok_iff, ensureInfo_ok_iff, decide_eq_true_eq] at hstep
    obtain ⟨_, hk, _, ⟨info, hinfo, hbucket⟩, _, ⟨other, hother, hposition⟩, hset⟩ := hstep
    cases hset
    rw [hinfo] at hother
    cases hother
    have hat : R.triedSlot s.nKey info.addr.service = slot := by
      rw [AddrRules.triedSlot, hbucket, hposition]
    refine ⟨forall_mem_append.mpr ⟨hseen.held, ?_⟩, ?_, fun n hn hnot => ?_⟩
    · rw [forall_mem_singleton, hslot]
      rintro n ⟨⟩
      refine ⟨hseen.subset hk, fun other hother => ?_⟩
      cases hinfo.symm.trans hother
      exact hat
    · exact (Finset.erase_subset _ _).trans hseen.subset
    · by_cases hkn : n = k
      · exact ⟨slot, mem_append_right _ (mem_singleton_self _), hkn ▸ hslot⟩
      · obtain ⟨x, hx, hxn⟩ := hseen.struck n hn fun hmem =>
          hnot (Finset.mem_erase.mpr ⟨hkn, hmem⟩)
        exact ⟨x, mem_append_left _ hx, hxn⟩

structure NewSeen (R : AddrRules) (s : CAddrMan) (before : AList fun _ : Nat => Int)
    (seen : List NewSlot) (map : AList fun _ : Nat => Int) : Prop where
  held : ∀ slot ∈ seen, ∀ n, s.vvNew slot = some n → (∃ count, before.lookup n = some count) ∧
    ∀ info, s.mapInfo.lookup n = some info →
      R.getBucketPosition s.nKey info.addr.service true slot.1 = slot.2
  counts : ∀ n count, before.lookup n = some count →
    (map.lookup n).getD 0 + remaining s.vvNew seen n = count
  subset : ∀ n count, map.lookup n = some count → ∃ count', before.lookup n = some count'

theorem newSeen_of_run {before final : AList fun _ : Nat => Int} {l : List NewSlot}
    (h : runFrom (s.checkNew R) 0 l before = .ok final) : NewSeen R s before l final := by
  refine runFrom_induct (NewSeen R s before) (fun seen slot map map' hseen hstep => ?_) []
    ⟨nofun, fun n count hn => ?_, fun n count hn => ⟨count, hn⟩⟩ h
  · unfold checkNew at hstep
    cases hslot : s.vvNew slot with
    | none =>
      rw [hslot] at hstep
      cases hstep
      refine ⟨forall_mem_append.mpr ⟨hseen.held, ?_⟩, fun n count hn => ?_, hseen.subset⟩
      · rw [forall_mem_singleton, hslot]
        rintro n ⟨⟩
      · rw [remaining_concat_ne (by rw [hslot]; exact nofun)]
        exact hseen.counts n count hn
    | some k =>
      rw [hslot] at hstep
      dsimp only at hstep
      cases hk : map.lookup k with
      | none =>
        rw [hk] at hstep
        cases hstep
      | some left =>
        rw [hk] at hstep
        simp only [bind_ok_iff, ensureInfo_ok_iff, decide_eq_true_eq] at hstep
        obtain ⟨_, ⟨info, hinfo, hposition⟩, hmap⟩ := hstep
        cases hmap
        refine ⟨forall_mem_append.mpr ⟨hseen.held, ?_⟩, fun n count hn => ?_,
          fun n count hn => ?_⟩
        · rw [forall_mem_singleton, hslot]
          rintro n ⟨⟩
          refine ⟨hseen.subset k left hk, fun other hother => ?_⟩
          cases hinfo.symm.trans hother
          exact hposition
        · have hcount := hseen.counts n count hn
          by_cases hkn : n = k
          · subst hkn
            rw [hk, getD_some] at hcount
            rw [remaining_concat_eq hslot]
            split_ifs with hlast
            · rw [lookup_erase, getD_none]
              omega
            · rw [lookup_insert, getD_some]
              omega
          · rw [remaining_concat_ne (by rw [hslot]; exact fun heq => hkn (Option.some.inj heq).symm)]
            split_ifs
            · rw [lookup_erase_ne hkn]
              exact hcount
            · rw [lookup_insert_ne hkn]
              exact hcount
        · by_cases hkn : n = k
          · exact hkn ▸ hseen.subset k left hk
          · split_ifs at hn
            · rw [lookup_erase_ne hkn] at hn
              exact hseen.subset n count hn
            · rw [lookup_insert_ne hkn] at hn
              exact hseen.subset n count hn
  · rw [hn, getD_some]
    exact Int.add_zero _

theorem checked_of_check_ok (h : s.check_ R = .ok ()) : Checked R s := by
  simp only [check_, bind_ok_iff, ensure_ok_iff, decide_eq_true_eq] at h
  obtain ⟨-, -, u, hu, -, htriedCount, -, hnewCount, setTried, htried, mapNew, hnew, -, hnoTried, -,
    hnoNew, hkey⟩ := h
  obtain ⟨hnoted, hentries⟩ := noted_of_run hu
  have htriedSeen := triedSeen_of_run htried
  have hnewSeen := newSeen_of_run hnew
  rw [Finset.card_eq_zero.mp hnoTried] at htriedSeen
  have hnone : ∀ n, mapNew.lookup n = none := fun n => by
    have hempty : mapNew = ∅ := AList.ext (length_eq_zero_iff.mp hnoNew)
    rw [hempty, lookup_empty]
  have hheld : ∀ slot n, s.vvTried slot = some n → ∃ info, s.mapInfo.lookup n = some info ∧
      info.fInTried = true ∧ R.triedSlot s.nKey info.addr.service = slot := by
    intro slot n hslot
    obtain ⟨hmem, hat⟩ := htriedSeen.held slot (mem_slots slot) n hslot
    obtain ⟨info, hinfo, hin⟩ := (hnoted.tried n).mp hmem
    have hlookup := mem_lookup_iff.mpr hinfo
    exact ⟨info, hlookup, hin, hat info hlookup⟩
  refine ⟨fun n info hinfo => ?_, fun n info hinfo hin => ?_, fun n info hinfo hin => ?_,
    fun slot n hslot => ?_, hheld, ⟨?_, ?_⟩, hkey⟩
  · exact hentries ⟨n, info⟩ (mem_lookup_iff.mp hinfo)
  · have hcount := hnewSeen.counts n info.nRefCount
      ((hnoted.new n _).mpr ⟨info, mem_lookup_iff.mp hinfo, hin, rfl⟩)
    rw [hnone, getD_none, Int.zero_add, remaining_all (slots_nodup _ _) mem_slots] at hcount
    exact hcount.symm
  · obtain ⟨slot, -, hslot⟩ := htriedSeen.struck n
      ((hnoted.tried n).mpr ⟨info, mem_lookup_iff.mp hinfo, hin⟩) (Finset.notMem_empty n)
    obtain ⟨other, hother, -, hat⟩ := hheld slot n hslot
    rw [hinfo] at hother
    cases hother
    rw [hat]
    exact hslot
  · obtain ⟨⟨count, hcount⟩, hat⟩ := hnewSeen.held slot (mem_slots slot) n hslot
    obtain ⟨info, hinfo, hin, -⟩ := (hnoted.new n count).mp hcount
    have hlookup := mem_lookup_iff.mpr hinfo
    exact ⟨info, hlookup, hin, hat info hlookup⟩
  · rw [← htriedCount, hnoted.countTried, tally]
  · rw [Int.add_zero, ← hnewCount, hnoted.countNew, tally]

theorem Checked.status_tried (h : Checked R s) (hinfo : s.mapInfo.lookup n = some info)
    (hin : info.fInTried = true) : info.nLastSuccess ≠ 0 ∧ info.nRefCount = 0 := by
  have hstatus := (h.entry n info hinfo).1
  rw [CAddrMan.checkStatus, if_pos hin] at hstatus
  simp only [bind_ok_iff, ensure_ok_iff, decide_eq_true_eq] at hstatus
  obtain ⟨_, hsuccess, hrefs⟩ := hstatus
  exact ⟨hsuccess, hrefs⟩

theorem Checked.status_new (h : Checked R s) (hinfo : s.mapInfo.lookup n = some info)
    (hin : info.fInTried = false) :
    0 < info.nRefCount ∧ info.nRefCount ≤ ADDRMAN_NEW_BUCKETS_PER_ADDRESS := by
  have hstatus := (h.entry n info hinfo).1
  rw [CAddrMan.checkStatus, if_neg (Bool.not_eq_true _ ▸ hin)] at hstatus
  simp only [bind_ok_iff, ensure_ok_iff, decide_eq_true_eq] at hstatus
  obtain ⟨_, ⟨hnonneg, hle⟩, hne⟩ := hstatus
  exact ⟨by omega, hle⟩

theorem Checked.address_unique (h : Checked R s) {m : Nat} {other : CAddrInfo}
    (hinfo : s.mapInfo.lookup n = some info) (hother : s.mapInfo.lookup m = some other)
    (hip : info.addr.service.ip = other.addr.service.ip) : n = m := by
  have hid : ∀ k info, s.mapInfo.lookup k = some info →
      (s.mapAddr info.addr.service.ip).getD 0 = k := by
    intro k info hinfo
    have hindexes := (h.entry k info hinfo).2
    simp only [CAddrMan.checkIndexes, bind_ok_iff, ensure_ok_iff, decide_eq_true_eq] at hindexes
    obtain ⟨_, haddr, -⟩ := hindexes
    exact haddr
  rw [← hid n info hinfo, hip, hid m other hother]

abbrev PositiveTime := { nTime : Int64 // 0 < nTime }

inductive AddrCall
  | add (vAddr : List (CAddress × Nat)) (source : CNetAddr) (nTimePenalty nNow : Int64)
  | good (addr : CService) (nTime : PositiveTime) (nRnd : Fin ADDRMAN_NEW_BUCKET_COUNT)
  | attempt (addr : CService) (nTime : PositiveTime)
  | connected (addr : CService) (nTime : PositiveTime)
  | getAddr (nNow : Int64) (random : Nat → Nat)
  | select (newOnly fCoin : Bool) (tried : List (TriedSlot × Bool)) (new : List (NewSlot × Bool))
  | clear (nKey : uint256)

variable (R)

def add (s : CAddrMan) (source : CNetAddr) (nTimePenalty nNow : Int64) :
    List (CAddress × Nat) → Option CAddrMan
  | [] => some s
  | (addr, nRandom) :: vAddr => do
    let (_, s) ← s.add_ R addr source nTimePenalty nNow nRandom
    add s source nTimePenalty nNow vAddr

def call (s : CAddrMan) : AddrCall → Option CAddrMan
  | .add vAddr source nTimePenalty nNow => s.add R source nTimePenalty nNow vAddr
  | .good addr nTime nRnd => s.good_ R addr nTime nRnd
  | .attempt addr nTime => some (s.attempt_ addr nTime)
  | .connected addr nTime => some (s.connected_ addr nTime)
  | .getAddr nNow random => (s.getAddr_ nNow random).map Prod.snd
  | .select newOnly fCoin tried new => (s.select_ newOnly fCoin tried new).map fun _ => s
  | .clear nKey => some (s.clear nKey)

def step (o : Option CAddrMan) (e : AddrCall) : Option CAddrMan := o.bind fun s => s.call R e

/- `Clear` meets a manager without entries and draws a key. -/
def Clears (o : Option CAddrMan) : AddrCall → Prop
  | .clear nKey => (∀ s, o = some s → s.mapInfo.entries = []) ∧ nKey ≠ 0
  | _ => True

/- No assertion failed, and the check passes. -/
def Passes (o : Option CAddrMan) : Prop := ∃ s, o = some s ∧ s.check_ R = .ok ()

/- No assertion failed, the indexes are inverse to each other, the counters count, every new
entry has its slots, and the slots hold what belongs there. -/
def Consistent (o : Option CAddrMan) : Prop := ∃ s, o = some s ∧ Sound R 0 ∅ s ∧ s.nKey ≠ 0

variable {R}

variable {o : Option CAddrMan}

theorem Consistent.passes (h : Consistent R o) : Passes R o := by
  obtain ⟨s, rfl, hsound, hkey⟩ := h
  exact ⟨s, rfl, hsound.check_ok hkey⟩

theorem add_all_ok (h : Sound R 0 ∅ s) (source : CNetAddr) (nTimePenalty nNow : Int64)
    (vAddr : List (CAddress × Nat)) :
    ∃ t, s.add R source nTimePenalty nNow vAddr = some t ∧ Sound R 0 ∅ t ∧ t.nKey = s.nKey := by
  induction vAddr generalizing s with
  | nil => exact ⟨s, rfl, h, rfl⟩
  | cons head vAddr ih =>
    obtain ⟨addr, nRandom⟩ := head
    obtain ⟨fNew, t, ht, hsound, hkey⟩ := add_ok h addr source nTimePenalty nNow nRandom
    obtain ⟨u, hu, hlast, hkey'⟩ := ih hsound
    refine ⟨u, ?_, hlast, hkey'.trans hkey⟩
    rw [add, ht]
    exact hu

theorem Sound.empty (nKey : uint256) : Sound R 0 ∅ { nKey := nKey } := by
  have hnone : ∀ n : Nat, (∅ : AList fun _ : Nat => CAddrInfo).lookup n = none :=
    lookup_empty
  refine ⟨⟨?_, ?_, ?_, ?_, ?_, ?_⟩, ⟨rfl, rfl⟩, ?_⟩
  · intro k i
    rw [posOf, hnone]
    simp
  · intro a n
    simp [hnone]
  · intro n info hinfo
    rw [hnone] at hinfo
    cases hinfo
  · intro n info hinfo
    rw [hnone] at hinfo
    cases hinfo
  · intro slot nId hslot
    cases hslot
  · intro slot nId hslot
    cases hslot
  · intro n info hinfo
    rw [hnone] at hinfo
    cases hinfo

theorem Tables.clear_eq (h : Tables R s) (hempty : s.mapInfo.entries = []) (nKey : uint256) :
    s.clear nKey = { nKey := nKey } := by
  have hinfo : s.mapInfo = ∅ := AList.ext hempty
  have haddr : s.mapAddr = fun _ => none := by
    funext a
    cases hid : s.mapAddr a with
    | none => rfl
    | some n =>
      obtain ⟨info, hlookup, -⟩ := (h.address a n).mp hid
      rw [hinfo, lookup_empty] at hlookup
      cases hlookup
  rw [clear, hinfo, haddr]

variable {e : AddrCall}

theorem Consistent.step (h : Consistent R o) (hclears : Clears o e) :
    Consistent R (step R o e) := by
  obtain ⟨s, rfl, hsound, hkey⟩ := h
  cases e with
  | add vAddr source nTimePenalty nNow =>
    obtain ⟨t, ht, hsound', hkey'⟩ := add_all_ok hsound source nTimePenalty nNow vAddr
    exact ⟨t, ht, hsound', hkey' ▸ hkey⟩
  | good addr nTime nRnd =>
    obtain ⟨t, ht, hsound', hkey'⟩ := good_ok hsound addr nTime.2 nRnd
    exact ⟨t, ht, hsound', hkey' ▸ hkey⟩
  | attempt addr nTime =>
    obtain ⟨hsound', hkey'⟩ := attempt_ok hsound addr nTime.2
    exact ⟨_, rfl, hsound', hkey' ▸ hkey⟩
  | connected addr nTime =>
    obtain ⟨hsound', hkey'⟩ := connected_ok hsound addr nTime
    exact ⟨_, rfl, hsound', hkey' ▸ hkey⟩
  | getAddr nNow random =>
    obtain ⟨r, t, ht, hsound', hkey'⟩ := getAddr_ok hsound nNow random
    exact ⟨t, congrArg (Option.map Prod.snd) ht, hsound', hkey' ▸ hkey⟩
  | select newOnly fCoin tried new =>
    obtain ⟨r, hr⟩ := select_ok hsound.tables newOnly fCoin tried new
    exact ⟨s, congrArg (Option.map fun _ => s) hr, hsound, hkey⟩
  | clear nKey =>
    obtain ⟨hempty, hnull⟩ := hclears
    refine ⟨s.clear nKey, rfl, ?_, hnull⟩
    rw [hsound.tables.clear_eq (hempty s rfl)]
    exact Sound.empty nKey

theorem clears_of_passes (h : Consistent R o) (hpasses : Passes R (step R o e)) :
    Clears o e := by
  cases e with
  | clear nKey =>
    obtain ⟨s, rfl, -⟩ := h
    obtain ⟨t, ht, hcheck⟩ := hpasses
    cases ht
    obtain ⟨hkey, hempty⟩ := check_ok_cases hcheck
    refine ⟨fun s' hs => ?_, hkey⟩
    cases hs
    exact hempty rfl
  | _ => trivial

/- The check passes throughout exactly if `Clear` never meets an entry and no key is null; and
then everything is in order. -/
theorem check_passes_iff (R : AddrRules) (nKey : uint256) (calls : List AddrCall) :
    (Always (step R) (Passes R) (some { nKey }) calls ↔
      nKey ≠ 0 ∧ Along (step R) Clears (some { nKey }) calls) ∧
    (Always (step R) (Passes R) (some { nKey }) calls →
      Always (step R) (Consistent R) (some { nKey }) calls) := by
  have hfirst : Always (step R) (Passes R) (some { nKey }) calls → nKey ≠ 0 := fun h => by
    obtain ⟨s, hs, hcheck⟩ := h.first
    cases hs
    exact (check_ok_cases hcheck).1
  have hstart : nKey ≠ 0 → Consistent R (some { nKey }) := fun hkey =>
    ⟨_, rfl, Sound.empty nKey, hkey⟩
  have halong : Always (step R) (Passes R) (some { nKey }) calls →
      Along (step R) Clears (some { nKey }) calls := fun h =>
    h.along (fun _ _ => Consistent.step) (fun _ _ => clears_of_passes) (hstart (hfirst h))
  refine ⟨⟨fun h => ⟨hfirst h, halong h⟩, fun h => ?_⟩, fun h => ?_⟩
  · exact (h.2.always (fun _ _ => Consistent.step) (hstart h.1)).mono fun _ => Consistent.passes
  · exact (halong h).always (fun _ _ => Consistent.step) (hstart (hfirst h))

/- One address is added and the manager is cleared: the entry still stands in `mapInfo`, but no
longer in the random order. -/
theorem clear_keeps_entries :
    let R : AddrRules := { Hash := fun _ => 1, getGroup := fun _ => [], isRoutable := fun _ => true }
    let address : CAddress :=
      { service := { ip := 1, port := 1 }, nServices := 1, nTime := 1500000000 }
    let calls := [AddrCall.add [(address, 0)] 2 0 1500000000, AddrCall.clear 3]
    ∃ s, run (step R) (some { nKey := 3 }) calls = some s ∧ s.mapInfo.entries.length = 1 ∧
      s.check_ R = .error (-14) :=
  ⟨_, rfl, by decide +kernel, by decide +kernel⟩

end CAddrMan

end Alqo
