import Alqo.AddrManDisk

/-!
# Reading the address manager back (addrman.h)

The new id of an entry is the place at which it was written. After each loop of `Unserialize` the
tables are those of the entries read so far.
-/

namespace Alqo
open Lib.Codec Lib.BackPointers Lib.SlotTable Lib.Tally Lib.Runs Function List AList
open Option hiding guard

namespace CAddrMan

variable {R : AddrRules} {k : StreamKind} {s t u : CAddrMan} {n m : Nat} {info : CAddrInfo}
  {seen rest : List Entry} {e e' : Entry} {todo todo' : NewSlot → Prop} {slot : NewSlot}
  {ids : Nat → Nat} {bucket : Fin ADDRMAN_NEW_BUCKET_COUNT}

def newOf (l : List Entry) : List Entry := l.filter fun e => e.2.nRefCount ≠ 0

def triedOf (l : List Entry) : List Entry := l.filter fun e => e.2.fInTried

theorem writeNew_ok (k : StreamKind) {nNew : Int} (l : List Entry) (nIds : Nat) (ids : Nat → Nat)
    (hcount : nNew = nIds + (newOf l).length) (hnodup : l.NodupKeys) :
    ∃ ids', writeNew k nNew l nIds ids = some ((newOf l).flatMap fun e => e.2.write k, ids') ∧
      (∀ n, n ∉ l.keys → ids' n = ids n) ∧
      ∀ i e, (newOf l)[i]? = some e → ids' e.1 = nIds + i := by
  induction l generalizing nIds ids with
  | nil => exact ⟨ids, rfl, fun _ _ => rfl, nofun⟩
  | cons e l ih =>
    obtain ⟨n, info⟩ := e
    obtain ⟨hnot, hrest⟩ := nodupKeys_cons.mp hnodup
    by_cases hrefs : info.nRefCount ≠ 0
    · have hnew : newOf (⟨n, info⟩ :: l) = ⟨n, info⟩ :: newOf l :=
        filter_cons_of_pos (decide_eq_true hrefs)
      rw [hnew, length_cons] at hcount
      obtain ⟨ids', hwrite, hothers, hids⟩ := ih (nIds + 1) (update ids n nIds)
        (by omega) hrest
      have hguard : ((nIds : Int) ≠ nNew) := by omega
      refine ⟨ids', ?_, fun m hm => ?_, fun i e he => ?_⟩
      · rw [writeNew]
        simp only [if_pos hrefs, guard, if_pos hguard, hwrite, hnew]
        rfl
      · rw [keys_cons, mem_cons, not_or] at hm
        rw [hothers m hm.2, update_of_ne hm.1]
      · rw [hnew] at he
        cases i with
        | zero =>
          cases he
          rw [hothers n hnot, update_self, Nat.add_zero]
        | succ i =>
          rw [hids i e he]
          omega
    · have hnew : newOf (⟨n, info⟩ :: l) = newOf l :=
        filter_cons_of_neg (by simpa using hrefs)
      rw [hnew] at hcount ⊢
      obtain ⟨ids', hwrite, hothers, hids⟩ := ih nIds (update ids n nIds) hcount hrest
      refine ⟨ids', ?_, fun m hm => ?_, hids⟩
      · rw [writeNew]
        simp only [if_neg hrefs, hwrite]
      · rw [keys_cons, mem_cons, not_or] at hm
        rw [hothers m hm.2, update_of_ne hm.1]

theorem writeTried_ok (k : StreamKind) {nTried : Int} (l : List Entry) (nIds : Nat)
    (hcount : nTried = nIds + (triedOf l).length) :
    writeTried k nTried l nIds = some ((triedOf l).flatMap fun e => e.2.write k) := by
  induction l generalizing nIds with
  | nil => rfl
  | cons e l ih =>
    obtain ⟨n, info⟩ := e
    by_cases hin : info.fInTried = true
    · have htried : triedOf (⟨n, info⟩ :: l) = ⟨n, info⟩ :: triedOf l :=
        filter_cons_of_pos hin
      rw [htried, length_cons] at hcount
      have hguard : ((nIds : Int) ≠ nTried) := by omega
      rw [writeTried]
      simp only [if_pos hin, guard, if_pos hguard, ih (nIds + 1) (by omega), htried]
      rfl
    · have htried : triedOf (⟨n, info⟩ :: l) = triedOf l := filter_cons_of_neg hin
      rw [htried] at hcount ⊢
      rw [writeTried, if_neg hin, ih nIds hcount]

def written (s : CAddrMan) : List Entry := newOf s.ordered ++ triedOf s.ordered

def newId (s : CAddrMan) (n : Nat) : Nat := s.written.keys.idxOf n

theorem ordered_perm (s : CAddrMan) : s.ordered.Perm s.mapInfo.entries := mergeSort_perm _ _

theorem mem_ordered : e ∈ s.ordered ↔ s.mapInfo.lookup e.1 = some e.2 := by
  rw [s.ordered_perm.mem_iff]
  exact mem_lookup_iff.symm

theorem ordered_nodupKeys (s : CAddrMan) : s.ordered.NodupKeys :=
  (perm_nodupKeys s.ordered_perm).mpr s.mapInfo.nodupKeys

theorem sum_weights (l : List Entry) :
    (l.map fun e => triedWeight e.1 e.2).sum = (triedOf l).length ∧
      (l.map fun e => newWeight e.1 e.2).sum = (l.filter fun e => !e.2.fInTried).length := by
  induction l with
  | nil => exact ⟨rfl, rfl⟩
  | cons e l ih =>
    obtain ⟨htried, hnew⟩ := ih
    rw [map_cons, map_cons, sum_cons, sum_cons, htried, hnew, triedOf, triedOf,
      filter_cons, filter_cons]
    cases hin : e.2.fInTried with
    | true =>
      obtain ⟨hone, hzero⟩ := weights_of_tried e.2 hin e.1
      rw [hone, hzero, if_pos rfl, if_neg (by decide), length_cons]
      exact ⟨by omega, by omega⟩
    | false =>
      obtain ⟨hzero, hone⟩ := weights_of_new e.2 hin e.1
      rw [hone, hzero, if_neg (by decide), if_pos (by decide), length_cons]
      exact ⟨by omega, by omega⟩

section
variable (h : Checked R s)
include h

theorem Checked.refs_iff (hinfo : s.mapInfo.lookup n = some info) :
    info.nRefCount ≠ 0 ↔ info.fInTried = false := by
  cases hin : info.fInTried with
  | true => exact iff_of_false (fun hne => hne (h.status_tried hinfo hin).2) Bool.noConfusion
  | false =>
    have hpositive := (h.status_new hinfo hin).1
    exact iff_of_true (by omega) rfl

theorem Checked.newOf_eq : newOf s.ordered = s.ordered.filter fun e => !e.2.fInTried := by
  refine filter_congr fun e he => ?_
  rw [Bool.eq_iff_iff, decide_eq_true_iff, Bool.not_eq_true', h.refs_iff (mem_ordered.mp he)]

theorem Checked.counts :
    s.nNew = (newOf s.ordered).length ∧ s.nTried = (triedOf s.ordered).length := by
  obtain ⟨htried, hnew⟩ := sum_weights s.ordered
  have hsum : ∀ f : Entry → Int, (s.ordered.map f).sum = (s.mapInfo.entries.map f).sum := fun f =>
    (s.ordered_perm.map f).sum_eq
  refine ⟨?_, ?_⟩
  · rw [h.newOf_eq, ← hnew, hsum, ← Int.add_zero s.nNew, h.counted.new, tally]
  · rw [← htried, hsum, h.counted.tried, tally]

theorem Checked.written_perm : s.written.Perm s.mapInfo.entries := by
  rw [written, h.newOf_eq, triedOf]
  refine List.Perm.trans ?_ s.ordered_perm
  have hsplit := filter_append_perm (fun e : Entry => !e.2.fInTried) s.ordered
  simpa using hsplit

theorem Checked.mem_written : e ∈ s.written ↔ s.mapInfo.lookup e.1 = some e.2 := by
  rw [h.written_perm.mem_iff]
  exact mem_lookup_iff.symm

theorem Checked.written_nodupKeys : s.written.NodupKeys :=
  (perm_nodupKeys h.written_perm).mpr s.mapInfo.nodupKeys

theorem Checked.written_addresses : (s.written.map fun e => e.2.addr.service.ip).Nodup := by
  have hkeys := h.written_nodupKeys
  rw [List.NodupKeys, List.keys] at hkeys
  refine List.Nodup.map_on (fun e he e' he' hip => ?_) (List.Nodup.of_map _ hkeys)
  rw [h.mem_written] at he he'
  have hid := h.address_unique he he' hip
  obtain ⟨n, info⟩ := e
  obtain ⟨n', info'⟩ := e'
  subst hid
  rw [he] at he'
  cases he'
  rfl

theorem Checked.written_status (he : s.written[m]? = some e) :
    e.2.fInTried = decide ((newOf s.ordered).length ≤ m) := by
  rw [written] at he
  rcases Nat.lt_or_ge m (newOf s.ordered).length with hlt | hge
  · rw [getElem?_append_left hlt, h.newOf_eq] at he
    have hmem := (mem_filter.mp (mem_of_getElem? he)).2
    rw [Bool.not_eq_true'] at hmem
    rw [hmem, decide_eq_false (by omega)]
  · rw [getElem?_append_right hge] at he
    have hmem := (mem_filter.mp (mem_of_getElem? he)).2
    rw [hmem, decide_eq_true hge]

theorem Checked.written_newId (hinfo : s.mapInfo.lookup n = some info) :
    s.written[s.newId n]? = some ⟨n, info⟩ := by
  have hentry : (⟨n, info⟩ : Entry) ∈ s.written := h.mem_written.mpr hinfo
  have hmem : n ∈ s.written.keys := mem_keys_of_mem hentry
  have hat : s.written.keys[s.newId n]? = some n := by
    rw [newId, getElem?_idxOf hmem]
  rw [List.keys, getElem?_map] at hat
  obtain ⟨e, he, hn⟩ := map_eq_some_iff.mp hat
  rw [he]
  have hlookup := h.mem_written.mp (mem_of_getElem? he)
  obtain ⟨n', info'⟩ := e
  subst hn
  rw [hinfo] at hlookup
  cases hlookup
  rfl

theorem Checked.newId_of_written (he : s.written[m]? = some e) : s.newId e.1 = m := by
  have hkeys := h.written_nodupKeys
  obtain ⟨hlt, hat⟩ := List.getElem?_eq_some_iff.mp he
  have hlt' : m < s.written.keys.length := by
    rw [List.keys, length_map]
    exact hlt
  have hkey : s.written.keys[m] = e.1 := by
    simp only [List.keys, getElem_map, hat]
  rw [newId, ← hkey]
  exact List.Nodup.idxOf_getElem hkeys m hlt'

end

def restored (k : StreamKind) (info : CAddrInfo) (nRandomPos : Nat) (nRefCount : Int) :
    CAddrInfo where
  addr := info.addr.kept k
  source := info.source
  nLastSuccess := info.nLastSuccess
  nAttempts := info.nAttempts
  nRefCount := nRefCount
  fInTried := info.fInTried
  nRandomPos := nRandomPos

/- The entries `seen` of a manager were read and have their places as ids; the new table is
filled in part. -/
structure Reading (R : AddrRules) (k : StreamKind) (s : CAddrMan) (seen : List Entry)
    (t : CAddrMan) : Prop where
  key : t.nKey = s.nKey
  countNew : t.nNew = s.nNew
  countTried : t.nTried = s.nTried
  random : t.vRandom = List.range seen.length
  info : ∀ m, t.mapInfo.lookup m = seen[m]?.map fun e => restored k e.2 m (slotsOf t.vvNew m).card
  address : ∀ a m, t.mapAddr a = some m ↔ ∃ e, seen[m]? = some e ∧ e.2.addr.service.ip = a
  tried : ∀ slot m, t.vvTried slot = some m ↔ ∃ e, seen[m]? = some e ∧ e.2.fInTried = true ∧
    R.triedSlot s.nKey e.2.addr.service = slot

theorem exists_concat_iff {p : Entry → Prop} : (∃ e', (seen ++ [e])[m]? = some e' ∧ p e') ↔
    (∃ e', seen[m]? = some e' ∧ p e') ∨ (m = seen.length ∧ p e) := by
  rcases Nat.lt_trichotomy m seen.length with hlt | heq | hgt
  · rw [getElem?_append_left hlt]
    exact ⟨.inl, fun h => h.elim id fun h => by omega⟩
  · rw [heq, getElem?_concat_length, getElem?_eq_none (Nat.le_refl _)]
    simp
  · rw [getElem?_eq_none (by simp; omega), getElem?_eq_none (by omega)]
    simp
    omega

theorem Reading.push (h : Reading R k s seen t) (hblank : ∀ slot, t.vvNew slot = none)
    (haddr : ∀ e' ∈ seen, e'.2.addr.service.ip ≠ e.2.addr.service.ip)
    (vvTried : TriedSlot → Option Nat) (htried : ∀ slot m, vvTried slot = some m ↔
      t.vvTried slot = some m ∨ (m = seen.length ∧ e.2.fInTried = true ∧
        R.triedSlot s.nKey e.2.addr.service = slot)) (nIdCount : Nat) :
    Reading R k s (seen ++ [e]) { t with
      nIdCount := nIdCount
      mapInfo := t.mapInfo.insert seen.length (restored k e.2 seen.length 0)
      mapAddr := update t.mapAddr e.2.addr.service.ip (some seen.length)
      vRandom := t.vRandom ++ [seen.length]
      vvTried := vvTried } where
  key := h.key
  countNew := h.countNew
  countTried := h.countTried
  random := by
    rw [h.random, length_append, length_singleton, range_succ]
  info := fun m => by
    by_cases hm : m = seen.length
    · have hzero : (slotsOf t.vvNew seen.length).card = 0 := card_slotsOf_eq_zero.mpr fun slot => by
        rw [hblank]
        exact (some_ne_none _).symm
      rw [hm, lookup_insert, getElem?_concat_length, map_some, hzero]
      rfl
    · rw [lookup_insert_ne hm, h.info]
      rcases Nat.lt_or_gt_of_ne hm with hlt | hgt
      · rw [getElem?_append_left hlt]
      · rw [getElem?_eq_none (by omega), getElem?_eq_none (by simp; omega)]
  address := fun a m => by
    show update t.mapAddr _ _ a = some m ↔ _
    rw [exists_concat_iff]
    by_cases ha : a = e.2.addr.service.ip
    · have hnone : ¬ ∃ e', seen[m]? = some e' ∧ e'.2.addr.service.ip = a := by
        rintro ⟨e', he', hip⟩
        exact haddr e' (mem_of_getElem? he') (hip.trans ha)
      rw [or_iff_right hnone, ha, update_self, some_inj, and_iff_left rfl, eq_comm]
    · rw [update_of_ne ha, h.address, or_iff_left fun hnew => ha hnew.2.symm]
  tried := fun slot m => by
    rw [htried, h.tried, exists_concat_iff]

section
variable (h : Checked R s)
include h

theorem Checked.fresh_address (hsplit : s.written = seen ++ e :: rest) :
    ∀ e' ∈ seen, e'.2.addr.service.ip ≠ e.2.addr.service.ip := by
  have hnodup := h.written_addresses
  rw [hsplit, map_append, map_cons, nodup_append] at hnodup
  exact fun e' he' => hnodup.2.2 _ (List.mem_map_of_mem he') _ mem_cons_self

theorem Checked.fresh_slot (hsplit : s.written = seen ++ e :: rest) (hin : e.2.fInTried = true)
    (hread : Reading R k s seen t) : t.vvTried (R.triedSlot s.nKey e.2.addr.service) = none := by
  cases hslot : t.vvTried (R.triedSlot s.nKey e.2.addr.service) with
  | none => rfl
  | some m =>
    obtain ⟨e', he', hin', hsame⟩ := (hread.tried _ m).mp hslot
    have hmem' : e' ∈ seen := mem_of_getElem? he'
    have hinfo : s.mapInfo.lookup e.1 = some e.2 := h.mem_written.mp (by simp [hsplit])
    have hinfo' : s.mapInfo.lookup e'.1 = some e'.2 := h.mem_written.mp (by simp [hsplit, hmem'])
    have hheld := h.tried e'.1 e'.2 hinfo' hin'
    rw [hsame, h.tried e.1 e.2 hinfo hin] at hheld
    have hkey : e.1 = e'.1 := Option.some.inj hheld
    rw [← hkey, hinfo] at hinfo'
    have hip : e'.2.addr.service.ip = e.2.addr.service.ip := by
      rw [Option.some.inj hinfo']
    exact absurd hip (h.fresh_address hsplit e' hmem')

theorem Reading.readNew (hread : Reading R k s seen t) (hblank : ∀ slot, t.vvNew slot = none)
    (hsplit : s.written = seen ++ e :: rest) (hin : e.2.fInTried = false) :
    ∃ t', Reads (t.readNew R k true seen.length) (e.2.write k) t' ∧
      Reading R k s (seen ++ [e]) t' ∧ ∀ slot, t'.vvNew slot = none := by
  have hnone : t.mapInfo.lookup seen.length = none := by
    rw [hread.info, getElem?_eq_none (Nat.le_refl _)]
    rfl
  have hnext := hread.push hblank (h.fresh_address hsplit) t.vvTried
    (fun slot m => by simp [hin]) t.nIdCount
  refine ⟨_, (CAddrInfo.reads k e.2 _).bind_last ?_, hnext, hblank⟩
  rw [hnone, hread.random, length_range, restored, hin]
  rfl

omit h in
theorem Reading.readTried (h : Checked R s) (hread : Reading R k s seen t)
    (hblank : ∀ slot, t.vvNew slot = none) (hsplit : s.written = seen ++ e :: rest)
    (hin : e.2.fInTried = true) (hid : t.nIdCount = seen.length) (i : Nat) (nLost : Int) :
    ∃ t', Reads (readTried R k i (t, nLost)) (e.2.write k) (t', nLost) ∧
      Reading R k s (seen ++ [e]) t' ∧ (∀ slot, t'.vvNew slot = none) ∧
      t'.nIdCount = seen.length + 1 := by
  have hfree := h.fresh_slot hsplit hin hread
  have hnext := hread.push hblank (h.fresh_address hsplit)
    (update t.vvTried (R.triedSlot s.nKey e.2.addr.service) (some seen.length))
    (fun slot m => by
      by_cases hslot : slot = R.triedSlot s.nKey e.2.addr.service
      · rw [hslot, update_self, hfree]
        simp [hin, eq_comm]
      · rw [update_of_ne hslot]
        simp [hin, Ne.symm hslot]) (seen.length + 1)
  refine ⟨_, (CAddrInfo.reads k e.2 _).bind_last ?_, hnext, hblank, rfl⟩
  have hslot : R.triedSlot t.nKey e.2.addr.service = R.triedSlot s.nKey e.2.addr.service := by
    rw [hread.key]
  dsimp only [CAddress.kept]
  rw [hslot, if_pos hfree, hid, hread.random, length_range, restored, hin]
  rfl

omit h in
theorem Reading.empty (R : AddrRules) (k : StreamKind) (s : CAddrMan) :
    Reading R k s [] { nKey := s.nKey, nNew := s.nNew, nTried := s.nTried } where
  key := rfl
  countNew := rfl
  countTried := rfl
  random := rfl
  info := fun m => lookup_empty m
  address := fun a m => by simp
  tried := fun slot m => by simp

def ReadingNew (R : AddrRules) (k : StreamKind) (s : CAddrMan) (i : Nat) (rest : List Entry)
    (t : CAddrMan) : Prop :=
  ∃ seen, newOf s.ordered = seen ++ rest ∧ seen.length = i ∧ Reading R k s seen t ∧
    ∀ slot, t.vvNew slot = none

theorem ReadingNew.turn (i : Nat) (e : Entry) (rest : List Entry) (t : CAddrMan)
    (hturn : ReadingNew R k s i (e :: rest) t) :
    ∃ t', Reads (t.readNew R k true i) (e.2.write k) t' ∧ ReadingNew R k s (i + 1) rest t' := by
  obtain ⟨seen, hsplit, rfl, hread, hblank⟩ := hturn
  have hwritten : s.written = seen ++ e :: (rest ++ triedOf s.ordered) := by
    rw [written, hsplit, append_assoc, cons_append]
  have hin : e.2.fInTried = false := by
    have hmem : e ∈ newOf s.ordered := by simp [hsplit]
    rw [h.newOf_eq, mem_filter, Bool.not_eq_true'] at hmem
    exact hmem.2
  obtain ⟨t', hreads, hnext⟩ := hread.readNew h hblank hwritten hin
  refine ⟨t', hreads, seen ++ [e], ?_, ?_, hnext⟩
  · rw [hsplit, append_assoc, singleton_append]
  · rw [length_append, length_singleton]

theorem reads_newEntries (hread : Reading R k s [] t) (hblank : ∀ slot, t.vvNew slot = none) :
    ∃ t', Reads (loop (readNew R k true) (newOf s.ordered).length 0 t)
        ((newOf s.ordered).flatMap fun e => e.2.write k) t' ∧
      Reading R k s (newOf s.ordered) t' ∧ ∀ slot, t'.vvNew slot = none := by
  obtain ⟨t', hreads, seen, hsplit, -, hdone⟩ := reads_loop (fun e : Entry => e.2.write k)
    (ReadingNew R k s) (ReadingNew.turn h) 0 (newOf s.ordered) t ⟨[], rfl, rfl, hread, hblank⟩
  rw [append_nil] at hsplit
  exact ⟨t', hreads, hsplit ▸ hdone⟩

def ReadingTried (R : AddrRules) (k : StreamKind) (s : CAddrMan) (_ : Nat) (rest : List Entry)
    (st : CAddrMan × Int) : Prop :=
  st.2 = 0 ∧ ∃ seen, s.written = seen ++ rest ∧ rest ⊆ triedOf s.ordered ∧
    Reading R k s seen st.1 ∧ (∀ slot, st.1.vvNew slot = none) ∧ st.1.nIdCount = seen.length

theorem ReadingTried.turn (i : Nat) (e : Entry) (rest : List Entry) (st : CAddrMan × Int)
    (hturn : ReadingTried R k s i (e :: rest) st) :
    ∃ st', Reads (readTried R k i st) (e.2.write k) st' ∧ ReadingTried R k s (i + 1) rest st' := by
  obtain ⟨t, nLost⟩ := st
  obtain ⟨hlost, seen, hsplit, hsub, hread, hblank, hid⟩ := hturn
  have hin : e.2.fInTried = true := (mem_filter.mp (hsub mem_cons_self)).2
  obtain ⟨t', hreads, hnext, hblank', hid'⟩ := hread.readTried h hblank hsplit hin hid i nLost
  refine ⟨(t', nLost), hreads, hlost, seen ++ [e], ?_, ?_, hnext, hblank', ?_⟩
  · rw [hsplit, append_assoc, singleton_append]
  · exact fun e' he' => hsub (mem_cons_of_mem _ he')
  · rw [hid', length_append, length_singleton]

theorem reads_triedEntries (hread : Reading R k s (newOf s.ordered) t)
    (hblank : ∀ slot, t.vvNew slot = none) (hid : t.nIdCount = (newOf s.ordered).length) :
    ∃ t', Reads (loop (readTried R k) (triedOf s.ordered).length 0 (t, 0))
        ((triedOf s.ordered).flatMap fun e => e.2.write k) (t', 0) ∧
      Reading R k s s.written t' ∧ ∀ slot, t'.vvNew slot = none := by
  obtain ⟨⟨t', nLost⟩, hreads, hlost, seen, hsplit, -, hdone, hblank', -⟩ :=
    reads_loop (fun e : Entry => e.2.write k) (ReadingTried R k s) (ReadingTried.turn h) 0
      (triedOf s.ordered) (t, 0) ⟨rfl, newOf s.ordered, rfl, fun _ => id, hread, hblank, hid⟩
  rw [append_nil] at hsplit
  cases hlost
  exact ⟨t', hreads, hsplit ▸ hdone, hblank'⟩

structure Refilled (s : CAddrMan) (todo : NewSlot → Prop) (t : CAddrMan) : Prop where
  done : ∀ slot, ¬ todo slot → t.vvNew slot = (s.vvNew slot).map s.newId
  left : ∀ slot, todo slot → t.vvNew slot = none

omit h in
theorem Refilled.skip (h : Refilled s todo t) (hsub : ∀ slot, todo' slot → todo slot)
    (hempty : ∀ slot, todo slot → ¬ todo' slot → s.vvNew slot = none) : Refilled s todo' t where
  done := fun slot hslot => by
    by_cases htodo : todo slot
    · rw [h.left slot htodo, hempty slot htodo hslot]
      rfl
    · exact h.done slot htodo
  left := fun slot hslot => h.left slot (hsub slot hslot)

theorem Checked.newId_inj {info' : CAddrInfo} (hinfo : s.mapInfo.lookup n = some info)
    (hinfo' : s.mapInfo.lookup m = some info') (heq : s.newId n = s.newId m) : n = m := by
  have hat := h.written_newId hinfo
  rw [heq, h.written_newId hinfo'] at hat
  cases hat
  rfl

theorem Refilled.of_slot (hfill : Refilled s todo t) (hinfo : s.mapInfo.lookup n = some info)
    (hslot : t.vvNew slot = some (s.newId n)) : ¬ todo slot ∧ s.vvNew slot = some n := by
  have hnot : ¬ todo slot := fun htodo => by
    rw [hfill.left slot htodo] at hslot
    cases hslot
  rw [hfill.done slot hnot] at hslot
  obtain ⟨n', hn', hid⟩ := map_eq_some_iff.mp hslot
  obtain ⟨info', hinfo', -⟩ := h.newSlot slot n' hn'
  rw [← h.newId_inj hinfo' hinfo hid]
  exact ⟨hnot, hn'⟩

theorem Refilled.refs_lt (hfill : Refilled s todo t) (hinfo : s.mapInfo.lookup n = some info)
    (hslot : s.vvNew slot = some n) (htodo : todo slot) :
    (slotsOf t.vvNew (s.newId n)).card < (slotsOf s.vvNew n).card := by
  refine card_slotsOf_lt (fun x hx => (hfill.of_slot h hinfo hx).2) hslot ?_
  rw [hfill.left slot htodo]
  exact (some_ne_none _).symm

theorem Reading.put (hread : Reading R k s s.written t) (hinfo : s.mapInfo.lookup n = some info)
    (hslot : t.vvNew slot = none) :
    Reading R k s s.written { t with
      mapInfo := t.mapInfo.insert (s.newId n)
        (restored k info (s.newId n) ((slotsOf t.vvNew (s.newId n)).card + 1))
      vvNew := update t.vvNew slot (some (s.newId n)) } where
  key := hread.key
  countNew := hread.countNew
  countTried := hread.countTried
  random := hread.random
  address := hread.address
  tried := hread.tried
  info := fun m => by
    by_cases hm : m = s.newId n
    · rw [hm, lookup_insert, h.written_newId hinfo, map_some, card_slotsOf_put hslot]
      rfl
    · rw [lookup_insert_ne hm, hread.info, slotsOf_put_ne hslot hm]

omit h in
theorem Reading.refill (h : Checked R s) (hread : Reading R k s s.written t)
    (hfill : Refilled s todo t) (hslot : s.vvNew slot = some n) (htodo : todo slot) :
    ∃ t', refill R true slot.1 t (s.newId n) = t' ∧ Reading R k s s.written t' ∧
      Refilled s (fun x => todo x ∧ x ≠ slot) t' := by
  obtain ⟨info, hinfo, hin, hpos⟩ := h.newSlot slot n hslot
  have hentry := hread.info (s.newId n)
  rw [h.written_newId hinfo, map_some] at hentry
  have hempty := hfill.left slot htodo
  have hroom : ((slotsOf t.vvNew (s.newId n)).card : Int) < ADDRMAN_NEW_BUCKETS_PER_ADDRESS := by
    have hlt := hfill.refs_lt h hinfo hslot htodo
    have hrefs := h.refs n info hinfo hin
    have hle := (h.status_new hinfo hin).2
    omega
  have hplace : ((Fin.ofNat ADDRMAN_NEW_BUCKET_COUNT slot.1,
      R.getBucketPosition t.nKey info.addr.service true slot.1) : NewSlot) = slot := by
    rw [hread.key, hpos, Fin.ofNat_val_eq_self]
  refine ⟨_, ?_, hread.put h hinfo hempty, ⟨fun x hx => ?_, fun x hx => ?_⟩⟩
  · rw [CAddrMan.refill, hentry]
    dsimp only [restored, CAddress.kept]
    rw [hplace, if_pos ⟨rfl, hempty, hroom⟩]
    rfl
  · show update t.vvNew slot _ x = _
    by_cases hsame : x = slot
    · rw [hsame, update_self, hslot, map_some]
    · rw [update_of_ne hsame]
      exact hfill.done x fun htodo => hx ⟨htodo, hsame⟩
  · show update t.vvNew slot _ x = _
    rw [update_of_ne hx.2]
    exact hfill.left x hx.1

omit h in
theorem length_filter_le {S : Type} [Fintype S] (table : S → Option Nat) {p : Entry → Bool}
    (hheld : ∀ n info, s.mapInfo.lookup n = some info → p ⟨n, info⟩ = true →
      ∃ slot, table slot = some n) : (s.ordered.filter p).length ≤ Fintype.card S := by
  have hnodup : (s.ordered.filter p).keys.Nodup :=
    List.NodupKeys.sublist filter_sublist s.ordered_nodupKeys
  have hle := length_le_card (t := table) hnodup fun n hn => by
    obtain ⟨info, hmem⟩ := exists_of_mem_keys hn
    obtain ⟨hordered, hp⟩ := mem_filter.mp hmem
    exact hheld n info (mem_ordered.mp hordered) hp
  rwa [List.keys, length_map] at hle

theorem Checked.length_newOf_le : (newOf s.ordered).length ≤ 65536 := by
  refine (length_filter_le s.vvNew fun n info hinfo hp => ?_).trans_eq ?_
  · have hne : info.nRefCount ≠ 0 := of_decide_eq_true hp
    by_contra hnone
    refine hne ?_
    rw [h.refs n info hinfo ((h.refs_iff hinfo).mp hne), card_slotsOf_eq_zero.mpr]
    · rfl
    · exact fun slot hslot => hnone ⟨slot, hslot⟩
  · rw [Fintype.card_prod, Fintype.card_fin, Fintype.card_fin]
    rfl

theorem Checked.length_triedOf_le : (triedOf s.ordered).length ≤ 16384 := by
  refine (length_filter_le s.vvTried fun n info hinfo hp =>
    ⟨_, h.tried n info hinfo hp⟩).trans_eq ?_
  rw [Fintype.card_prod, Fintype.card_fin, Fintype.card_fin]
  rfl

theorem Checked.newId_lt (hinfo : s.mapInfo.lookup n = some info) (hin : info.fInTried = false) :
    s.newId n < (newOf s.ordered).length := by
  have hstatus := h.written_status (h.written_newId hinfo)
  rw [hin] at hstatus
  have hnot := of_decide_eq_false hstatus.symm
  omega

def heldIn (s : CAddrMan) (bucket : Fin ADDRMAN_NEW_BUCKET_COUNT) :
    List (Fin ADDRMAN_BUCKET_SIZE) :=
  (List.finRange ADDRMAN_BUCKET_SIZE).filter fun i => (s.vvNew (bucket, i)).isSome

def slotBytes (s : CAddrMan) (ids : Nat → Nat) (bucket : Fin ADDRMAN_NEW_BUCKET_COUNT)
    (i : Fin ADDRMAN_BUCKET_SIZE) : Bytes :=
  match s.vvNew (bucket, i) with
  | none => []
  | some n => int32Bytes (Int32.ofNat (ids n))

omit h in
theorem flatMap_filter {α β : Type} {p : α → Bool} {f : α → List β}
    (h : ∀ a, p a = false → f a = []) (l : List α) : (l.filter p).flatMap f = l.flatMap f := by
  induction l with
  | nil => rfl
  | cons a l ih =>
    cases ha : p a with
    | true => rw [filter_cons_of_pos ha, flatMap_cons, flatMap_cons, ih]
    | false =>
      rw [filter_cons_of_neg (by simp [ha]), flatMap_cons, h a ha, ih, nil_append]

omit h in
theorem writeBucket_eq (s : CAddrMan) (ids : Nat → Nat) (bucket : Fin ADDRMAN_NEW_BUCKET_COUNT) :
    s.writeBucket ids bucket = int32Bytes (Int32.ofNat (s.heldIn bucket).length) ++
      (s.heldIn bucket).flatMap (s.slotBytes ids bucket) := by
  rw [heldIn, flatMap_filter, ← countP_eq_length_filter]
  · rfl
  · intro i hi
    have hnone : s.vvNew (bucket, i) = none := by simpa using hi
    rw [slotBytes, hnone]

/- What the loop over a bucket keeps, with the slots of the bucket that are left. -/
structure ReadingBucket (R : AddrRules) (k : StreamKind) (s : CAddrMan)
    (bucket : Fin ADDRMAN_NEW_BUCKET_COUNT) (i : Nat) (rest : List (Fin ADDRMAN_BUCKET_SIZE))
    (t : CAddrMan) : Prop where
  read : Reading R k s s.written t
  nodup : rest.Nodup
  held : ∀ i ∈ rest, (s.vvNew (bucket, i)).isSome
  fill : Refilled s (fun x => (x.1 = bucket ∧ x.2 ∈ rest) ∨ bucket < x.1) t

theorem reads_index (hread : Reading R k s s.written t) (hslot : s.vvNew slot = some n) (i : Nat) :
    Reads (readIndex R true slot.1 i t) (int32Bytes (Int32.ofNat (s.newId n)))
      (refill R true slot.1 t (s.newId n)) := by
  obtain ⟨info, hinfo, hin, -⟩ := h.newSlot slot n hslot
  have hlt := h.newId_lt hinfo hin
  have hle := h.length_newOf_le
  have hcount := h.counts.1
  have hvalue : (Int32.ofNat (s.newId n)).toInt = s.newId n :=
    Int32.toInt_ofNat_of_lt (by omega)
  refine (reads_readInt32 _).bind_last ?_
  rw [hvalue, hread.countNew, if_pos ⟨by omega, by omega⟩, Int.toNat_natCast]

section
variable (hids : ∀ slot n, s.vvNew slot = some n → ids n = s.newId n)
include hids

theorem ReadingBucket.turn (i : Nat) (x : Fin ADDRMAN_BUCKET_SIZE)
    (rest : List (Fin ADDRMAN_BUCKET_SIZE)) (t : CAddrMan)
    (hturn : ReadingBucket R k s bucket i (x :: rest) t) :
    ∃ t', Reads (readIndex R true bucket i t) (s.slotBytes ids bucket x) t' ∧
      ReadingBucket R k s bucket (i + 1) rest t' := by
  obtain ⟨n, hslot⟩ := Option.isSome_iff_exists.mp (hturn.held x mem_cons_self)
  obtain ⟨hnot, hnodup⟩ := nodup_cons.mp hturn.nodup
  obtain ⟨t', ht', hread, hfill⟩ := hturn.read.refill h hturn.fill hslot
    (.inl ⟨rfl, mem_cons_self⟩)
  have hindex := reads_index h hturn.read hslot i
  rw [ht'] at hindex
  refine ⟨t', ?_, hread, hnodup, fun j hj => hturn.held j (mem_cons_of_mem _ hj),
    hfill.skip ?_ ?_⟩
  · rw [slotBytes, hslot]
    dsimp only
    rw [hids _ n hslot]
    exact hindex
  · rintro ⟨b, j⟩ (⟨hb, hj⟩ | hlater)
    · refine ⟨.inl ⟨hb, mem_cons_of_mem _ hj⟩, fun heq => hnot ?_⟩
      cases heq
      exact hj
    · refine ⟨.inr hlater, fun heq => ?_⟩
      cases heq
      exact lt_irrefl _ hlater
  · rintro ⟨b, j⟩ ⟨htodo, hne⟩ hdone
    rcases htodo with ⟨hb, hj⟩ | hlater
    · rcases mem_cons.mp hj with rfl | hrest
      · exact absurd (by rw [← hb]) hne
      · exact absurd (.inl ⟨hb, hrest⟩) hdone
    · exact absurd (.inr hlater) hdone

structure ReadingBuckets (R : AddrRules) (k : StreamKind) (s : CAddrMan) (i : Nat)
    (rest : List (Fin ADDRMAN_NEW_BUCKET_COUNT)) (t : CAddrMan) : Prop where
  read : Reading R k s s.written t
  left : rest = (List.finRange ADDRMAN_NEW_BUCKET_COUNT).drop i
  fill : Refilled s (fun x => i ≤ x.1.val) t

theorem ReadingBuckets.turn (i : Nat) (bucket : Fin ADDRMAN_NEW_BUCKET_COUNT)
    (rest : List (Fin ADDRMAN_NEW_BUCKET_COUNT)) (t : CAddrMan)
    (hturn : ReadingBuckets R k s i (bucket :: rest) t) :
    ∃ t', Reads (readBucket R true i t) (s.writeBucket ids bucket) t' ∧
      ReadingBuckets R k s (i + 1) rest t' := by
  have hcons := hturn.left
  have hi : i < ADDRMAN_NEW_BUCKET_COUNT := by
    by_contra hge
    rw [drop_eq_nil_of_le (by rw [length_finRange]; omega)] at hcons
    cases hcons
  rw [drop_eq_getElem_cons (by rw [length_finRange]; exact hi), getElem_finRange,
    List.cons.injEq] at hcons
  obtain ⟨hbucket, hrest⟩ := hcons
  have hval : bucket.val = i := by rw [hbucket]; rfl
  have hsize : (s.heldIn bucket).length ≤ 64 :=
    (List.length_filter_le _ _).trans_eq length_finRange
  have hvalue : (Int32.ofNat (s.heldIn bucket).length).toInt = (s.heldIn bucket).length :=
    Int32.toInt_ofNat_of_lt (by omega)
  have hstart : ReadingBucket R k s bucket 0 (s.heldIn bucket) t := by
    refine ⟨hturn.read, (nodup_finRange _).filter _, fun j hj => (mem_filter.mp hj).2,
      hturn.fill.skip ?_ ?_⟩
    · rintro ⟨b, j⟩ (⟨rfl, -⟩ | hlater)
      · exact hval.ge
      · have hlt : bucket.val < b.val := hlater
        omega
    · intro x htodo hdone
      have hsame : x.1 = bucket := by
        by_contra hne
        have hne' : x.1.val ≠ bucket.val := fun hv => hne (Fin.ext hv)
        refine hdone (.inr (Fin.lt_def.mpr ?_))
        omega
      have hnot : x.2 ∉ s.heldIn bucket := fun hmem => hdone (.inl ⟨hsame, hmem⟩)
      rw [heldIn, mem_filter, not_and, ← hsame] at hnot
      simpa using hnot (mem_finRange _)
  obtain ⟨t', hreads, hend⟩ := reads_loop (s.slotBytes ids bucket) (ReadingBucket R k s bucket)
    (ReadingBucket.turn h hids) 0 (s.heldIn bucket) t hstart
  refine ⟨t', ?_, hend.read, hrest, hend.fill.skip ?_ ?_⟩
  · rw [writeBucket_eq]
    refine (reads_readInt32 _).bind ?_
    rw [hvalue, Int.toNat_natCast, ← hval]
    exact hreads
  · intro x hlater
    exact .inr (Fin.lt_def.mpr (by omega))
  · rintro x (⟨-, hmem⟩ | hlater) hdone
    · cases hmem
    · exact absurd (Nat.lt_of_le_of_lt hval.ge hlater) hdone

theorem reads_buckets (hread : Reading R k s s.written t) (hblank : ∀ slot, t.vvNew slot = none) :
    ∃ t', Reads (loop (readBucket R true) ADDRMAN_NEW_BUCKET_COUNT 0 t)
        ((List.finRange ADDRMAN_NEW_BUCKET_COUNT).flatMap (s.writeBucket ids)) t' ∧
      Reading R k s s.written t' ∧ ∀ slot, t'.vvNew slot = (s.vvNew slot).map s.newId := by
  have hstart : ReadingBuckets R k s 0 (List.finRange ADDRMAN_NEW_BUCKET_COUNT) t :=
    ⟨hread, drop_zero.symm, fun slot hslot => absurd (Nat.zero_le _) hslot,
      fun slot _ => hblank slot⟩
  obtain ⟨t', hreads, hend⟩ := reads_loop (s.writeBucket ids) (ReadingBuckets R k s)
    (ReadingBuckets.turn h hids) 0 _ t hstart
  rw [length_finRange] at hreads hend
  refine ⟨t', hreads, hend.read, fun slot => hend.fill.done slot ?_⟩
  have hlt := slot.1.isLt
  omega

end

omit h in
theorem prune_of_kept (hkept : ∀ n info, t.mapInfo.lookup n = some info →
    info.fInTried = true ∨ info.nRefCount ≠ 0) (l : List Nat) : t.prune l = some t := by
  induction l with
  | nil => rfl
  | cons n l ih =>
    rw [prune, if_neg, ih]
    cases hinfo : t.mapInfo.lookup n with
    | none => simp
    | some info =>
      rcases hkept n info hinfo with hin | hrefs
      · simp [hin]
      · simp [hrefs]

/- The stream of a checked manager; the buckets refer to the entries by `ids`. -/
def layout (s : CAddrMan) (k : StreamKind) (ids : Nat → Nat) : Bytes :=
  leBytes 1 1 ++ (leBytes 1 32 ++ (leBytes 32 s.nKey.toNat ++
    (int32Bytes (Int32.ofInt s.nNew) ++ (int32Bytes (Int32.ofInt s.nTried) ++
      (int32Bytes (Int32.ofNat ADDRMAN_NEW_BUCKET_COUNT ^^^ ((1 : Int32) <<< 30)) ++
        ((newOf s.ordered).flatMap (fun e => e.2.write k) ++
          ((triedOf s.ordered).flatMap (fun e => e.2.write k) ++
            (List.finRange ADDRMAN_NEW_BUCKET_COUNT).flatMap (s.writeBucket ids))))))))

theorem Checked.serialize_ok (k : StreamKind) : ∃ ids,
    (∀ slot n, s.vvNew slot = some n → ids n = s.newId n) ∧
    s.serialize k = some (s.layout k ids) := by
  obtain ⟨hnew, htried⟩ := h.counts
  have hnew' : s.nNew = (0 : Nat) + (newOf s.ordered).length := by omega
  have htried' : s.nTried = (0 : Nat) + (triedOf s.ordered).length := by omega
  obtain ⟨ids, hwrite, -, hids⟩ := writeNew_ok k s.ordered 0 (fun _ => 0) hnew' s.ordered_nodupKeys
  refine ⟨ids, fun slot n hslot => ?_, ?_⟩
  · obtain ⟨info, hinfo, hin, -⟩ := h.newSlot slot n hslot
    have hat := h.written_newId hinfo
    rw [written, getElem?_append_left (h.newId_lt hinfo hin)] at hat
    rw [hids _ _ hat, Nat.zero_add]
  · rw [serialize, hwrite, writeTried_ok k s.ordered 0 htried']
    rfl

structure Restores (k : StreamKind) (s t : CAddrMan) (id : Nat → Nat) : Prop where
  injective : ∀ n m, n ∈ s.mapInfo → m ∈ s.mapInfo → id n = id m → n = m
  entry : ∀ n info, s.mapInfo.lookup n = some info →
    t.find info.addr.service.ip = some (id n, restored k info (id n) info.nRefCount)
  nothingElse : ∀ m info', t.mapInfo.lookup m = some info' → ∃ n ∈ s.mapInfo, id n = m
  newSlot : ∀ slot, t.vvNew slot = (s.vvNew slot).map id
  triedSlot : ∀ slot, t.vvTried slot = (s.vvTried slot).map id
  key : t.nKey = s.nKey
  countNew : t.nNew = s.nNew
  countTried : t.nTried = s.nTried

theorem Checked.refs_restored (hnew : ∀ slot, t.vvNew slot = (s.vvNew slot).map s.newId)
    (hinfo : s.mapInfo.lookup n = some info) :
    ((slotsOf t.vvNew (s.newId n)).card : Int) = info.nRefCount := by
  have hslots : slotsOf t.vvNew (s.newId n) = slotsOf s.vvNew n := by
    ext slot
    rw [mem_slotsOf, mem_slotsOf, hnew]
    constructor
    · intro hmap
      obtain ⟨n', hn', hid⟩ := map_eq_some_iff.mp hmap
      obtain ⟨info', hinfo', -⟩ := h.newSlot slot n' hn'
      rw [← h.newId_inj hinfo' hinfo hid]
      exact hn'
    · intro hslot
      rw [hslot, map_some]
  rw [hslots]
  cases hin : info.fInTried with
  | false => exact (h.refs n info hinfo hin).symm
  | true =>
    rw [(h.status_tried hinfo hin).2, card_slotsOf_eq_zero.mpr]
    · rfl
    · intro slot hslot
      obtain ⟨other, hother, hout, -⟩ := h.newSlot slot n hslot
      rw [hinfo] at hother
      cases hother
      rw [hin] at hout
      cases hout

theorem Reading.restores (hread : Reading R k s s.written t)
    (hnew : ∀ slot, t.vvNew slot = (s.vvNew slot).map s.newId) : Restores k s t s.newId where
  injective := fun n m hn hm heq => by
    obtain ⟨info, hinfo⟩ := lookup_isSome.mpr hn |> Option.isSome_iff_exists.mp
    obtain ⟨info', hinfo'⟩ := lookup_isSome.mpr hm |> Option.isSome_iff_exists.mp
    exact h.newId_inj hinfo hinfo' heq
  entry := fun n info hinfo => by
    have hat := h.written_newId hinfo
    have hid := (hread.address _ _).mpr ⟨_, hat, rfl⟩
    rw [find, hid]
    dsimp only
    rw [hread.info, hat, ← h.refs_restored hnew hinfo]
    rfl
  nothingElse := fun m info' hinfo => by
    rw [hread.info] at hinfo
    obtain ⟨e, he, -⟩ := map_eq_some_iff.mp hinfo
    refine ⟨e.1, ?_, h.newId_of_written he⟩
    rw [← lookup_isSome, h.mem_written.mp (mem_of_getElem? he)]
    rfl
  newSlot := hnew
  triedSlot := fun slot => by
    cases hslot : s.vvTried slot with
    | none =>
      rw [map_none, eq_none_iff_forall_ne_some]
      intro m hm
      obtain ⟨e, he, hin, hsame⟩ := (hread.tried slot m).mp hm
      have hheld := h.tried e.1 e.2 (h.mem_written.mp (mem_of_getElem? he)) hin
      rw [hsame, hslot] at hheld
      cases hheld
    | some n =>
      obtain ⟨info, hinfo, hin, hsame⟩ := h.triedSlot slot n hslot
      exact (hread.tried slot _).mpr ⟨_, h.written_newId hinfo, hin, hsame⟩
  key := hread.key
  countNew := hread.countNew
  countTried := hread.countTried

theorem Reading.kept (hread : Reading R k s s.written t)
    (hnew : ∀ slot, t.vvNew slot = (s.vvNew slot).map s.newId) (m : Nat) (info' : CAddrInfo)
    (hinfo' : t.mapInfo.lookup m = some info') : info'.fInTried = true ∨ info'.nRefCount ≠ 0 := by
  rw [hread.info] at hinfo'
  obtain ⟨e, he, rfl⟩ := map_eq_some_iff.mp hinfo'
  have hinfo := h.mem_written.mp (mem_of_getElem? he)
  rw [← h.newId_of_written he, h.refs_restored hnew hinfo]
  cases hin : e.2.fInTried with
  | true => exact .inl hin
  | false => exact .inr ((h.refs_iff hinfo).mpr hin)

theorem Checked.reads_layout (hids : ∀ slot n, s.vvNew slot = some n → ids n = s.newId n)
    (nKeyFresh nKeyDrawn : uint256) :
    ∃ t, Reads (unserialize R k nKeyDrawn { nKey := nKeyFresh }) (s.layout k ids) t ∧
      Restores k s t s.newId := by
  obtain ⟨hnew, htried⟩ := h.counts
  have hnewLe := h.length_newOf_le
  have htriedLe := h.length_triedOf_le
  have hnewValue : (Int32.ofInt s.nNew).toInt = s.nNew :=
    Int32.toInt_ofInt_of_le (by omega) (by omega)
  have htriedValue : (Int32.ofInt s.nTried).toInt = s.nTried :=
    Int32.toInt_ofInt_of_le (by omega) (by omega)
  obtain ⟨t₁, hreads₁, hread₁, hblank₁⟩ := reads_newEntries h (Reading.empty R k s) fun _ => rfl
  obtain ⟨t₂, hreads₂, hread₂, hblank₂⟩ := reads_triedEntries (t := { t₁ with
    nIdCount := (newOf s.ordered).length }) h { hread₁ with } hblank₁ rfl
  obtain ⟨t₃, hreads₃, hread₃, hnewSlots⟩ := reads_buckets h hids hread₂ hblank₂
  refine ⟨t₃, ?_, hread₃.restores h hnewSlots⟩
  refine (reads_readLE 1 1 (by decide)).bind ((reads_readLE 1 32 (by decide)).bind
    ((reads_check rfl).bind_first ((reads_readBits (by norm_num) s.nKey).bind
      ((reads_readInt32 (Int32.ofInt s.nNew)).bind ((reads_readInt32 (Int32.ofInt s.nTried)).bind
          ((reads_readInt32 (Int32.ofNat ADDRMAN_NEW_BUCKET_COUNT ^^^ ((1 : Int32) <<< 30))).bind
            ?_))))))
  have hbuckets : (if (1 : Nat) ≠ 0 then
      (Int32.ofNat ADDRMAN_NEW_BUCKET_COUNT ^^^ ((1 : Int32) <<< 30)) ^^^ ((1 : Int32) <<< 30)
      else Int32.ofNat ADDRMAN_NEW_BUCKET_COUNT ^^^ ((1 : Int32) <<< 30)) =
        Int32.ofNat ADDRMAN_NEW_BUCKET_COUNT := by decide
  have hturns : (Int32.ofNat ADDRMAN_NEW_BUCKET_COUNT).toInt.toNat = ADDRMAN_NEW_BUCKET_COUNT := by
    decide
  have hnewTurns : s.nNew.toNat = (newOf s.ordered).length := by omega
  have htriedTurns : s.nTried.toNat = (triedOf s.ordered).length := by omega
  dsimp only
  rw [hbuckets, hnewValue, htriedValue, hnewTurns, htriedTurns, hturns, decide_eq_true ⟨rfl, rfl⟩]
  refine hreads₁.bind (hreads₂.bind ?_)
  rw [Int.sub_zero]
  exact hreads₃.bind_last (by rw [prune_of_kept (hread₃.kept h hnewSlots)]; rfl)

end

/- A manager that passes the check is written, and a new one reads it back. -/
theorem unserialize_serialize (R : AddrRules) (k : StreamKind) (s : CAddrMan)
    (h : s.check_ R = .ok ()) (nKeyFresh nKeyDrawn : uint256) :
    ∃ written t id, s.serialize k = some written ∧
      (unserialize R k nKeyDrawn { nKey := nKeyFresh }).run written = some (t, []) ∧
      Restores k s t id := by
  have hchecked := checked_of_check_ok h
  obtain ⟨ids, hids, hwritten⟩ := hchecked.serialize_ok k
  obtain ⟨t, hreads, hall⟩ := hchecked.reads_layout hids nKeyFresh nKeyDrawn
  refine ⟨_, t, s.newId, hwritten, ?_, hall⟩
  have hrun := hreads []
  rwa [append_nil] at hrun

def plainRules : AddrRules :=
  { Hash := fun _ => 1, getGroup := fun _ => [], isRoutable := fun _ => true }

def plainAddress (ip : CNetAddr) : CAddress :=
  { service := { ip, port := 1 }, nServices := 1, nTime := 1500000000 }

def plainCalls : List AddrCall :=
  [.add [(plainAddress 1, 0)] 2 0 1500000000,
    .good (plainAddress 1).service ⟨1500000000, by decide⟩ 0,
    .add [(plainAddress 4, 0)] 2 0 1500000000]

theorem unserialize_serialize_plain :
    ∃ s, run (step plainRules) (some { nKey := 3 }) plainCalls = some s ∧
      s.nTried = 1 ∧ s.nNew = 1 ∧ s.check_ plainRules = .ok () ∧
      ∃ written t id, s.serialize ⟨SER_DISK, 70000⟩ = some written ∧
        (unserialize plainRules ⟨SER_DISK, 70000⟩ 5 { nKey := 6 }).run written = some (t, []) ∧
        Restores ⟨SER_DISK, 70000⟩ s t id := by
  have hstart : Consistent plainRules (some { nKey := 3 }) := ⟨_, rfl, Sound.empty 3, by decide⟩
  have hcalls : Along (step plainRules) Clears (some { nKey := 3 }) plainCalls :=
    ⟨trivial, trivial, trivial, trivial⟩
  have hlast := (hcalls.always (fun _ _ => Consistent.step) hstart).last
  obtain ⟨s, hs, hcheck⟩ := hlast.passes
  have hcounts : (run (step plainRules) (some { nKey := 3 }) plainCalls).map
      (fun s => (s.nTried, s.nNew)) = some (1, 1) := by decide +kernel
  rw [hs, map_some, Option.some.injEq, Prod.mk.injEq] at hcounts
  exact ⟨s, hs, hcounts.1, hcounts.2, hcheck, unserialize_serialize _ _ s hcheck 6 5⟩

end CAddrMan

end Alqo
