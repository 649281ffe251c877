import Alqo.Coins
import Alqo.Lib.Simulation

/-!
# Stacks of write-back coin caches (coins.cpp, txdb.cpp)

A read pulls the entry into every layer it passes, a modification marks it DIRTY, `Flush` hands the
DIRTY entries down. FRESH records that the layer below has nothing unspent for the transaction.
-/

namespace Alqo
open Function List AList CCoins

/-- `CCoinsCacheEntry`, its two flag bits spelled out. -/
structure CCoinsCacheEntry where
  coins : CCoins
  dirty : Bool := false
  fresh : Bool := false
deriving DecidableEq

abbrev CCoinsMap := AList fun _ : uint256 => CCoinsCacheEntry

structure CCoinsViewCache where
  cacheCoins : CCoinsMap := ∅
  hashBlock : uint256 := 0
deriving DecidableEq

/-- The database below all caches (`txdb.cpp`); reading back a record always
gives a cleaned-up object with something unspent. -/
structure CCoinsViewDB where
  coins : CoinsMap
  hashBestChain : uint256 := 0

inductive CoinsStack where
  | db (base : CCoinsViewDB)
  | cache (top : CCoinsViewCache) (base : CoinsStack)

namespace CoinsStack

/-- The coins `FetchCoins` finds, together with the stack
after the entry was pulled into the caches it passed. -/
def fetchCoins : CoinsStack → uint256 → Option CCoins × CoinsStack
  | .db base, txid => ((base.coins txid).map StoredCoins.coins, .db base)
  | .cache top base, txid =>
    match top.cacheCoins.lookup txid with
    | some entry => (some entry.coins, .cache top base)
    | none =>
      match fetchCoins base txid with
      | (none, base') => (none, .cache top base')
      | (some tmp, base') =>
        -- the layer below only has an empty entry: ours counts as fresh
        (some tmp, .cache
          { top with cacheCoins := top.cacheCoins.insert txid ⟨tmp, false, tmp.isPruned⟩ } base')

section
variable (top : CCoinsViewCache) (base : CoinsStack) (s : CoinsStack)

def getCoins (txid : uint256) : Option CCoins × CoinsStack := s.fetchCoins txid

/-- `AccessCoins` returns a pointer to the entry `GetCoins` copies. -/
def accessCoins (txid : uint256) : Option CCoins × CoinsStack := s.fetchCoins txid

/-- `HaveCoins` tests `vout.empty()`, not `IsPruned`. -/
def haveCoins (txid : uint256) : Bool × CoinsStack :=
  match s.fetchCoins txid with
  | (some coins, s') => (!coins.vout.isEmpty, s')
  | (none, s') => (false, s')

/-- The entry `ModifyCoins` hands to the modifier. -/
def openEntry (txid : uint256) : CCoinsCacheEntry × CoinsStack :=
  match top.cacheCoins.lookup txid with
  | some entry => ({ entry with dirty := true }, base)
  | none =>
    match base.fetchCoins txid with
    | (none, base') => (⟨CCoins.clear, true, true⟩, base')
    | (some coins, base') => (⟨coins, true, coins.isPruned⟩, base')

/-- The destructor of the modifier. -/
def closeEntry (txid : uint256) (entry : CCoinsCacheEntry) :
    CCoinsViewCache :=
  if entry.fresh && entry.coins.cleanup.isPruned then
    { top with cacheCoins := top.cacheCoins.erase txid }
  else
    { top with
      cacheCoins := top.cacheCoins.insert txid { entry with coins := entry.coins.cleanup } }

/-- `ModifyCoins`, the edit, and the end of the modifier's life. -/
def modifyCoins (txid : uint256) (edit : CCoins → CCoins) : CoinsStack :=
  let (entry, base') := openEntry top base txid
  .cache (closeEntry top txid { entry with coins := edit entry.coins }) base'

/-- One round of `CCoinsViewCache::BatchWrite`; `none` is
the failed assertion that a new entry is FRESH. -/
def writeEntry (us : CCoinsMap) (txid : uint256) (entry : CCoinsCacheEntry) : Option CCoinsMap :=
  if entry.dirty then
    match us.lookup txid with
    | none =>
      if !entry.coins.isPruned then
        if entry.fresh then some (us.insert txid ⟨entry.coins, true, true⟩) else none
      else some us
    | some ours =>
      if ours.fresh && entry.coins.isPruned then some (us.erase txid)
      else some (us.insert txid ⟨entry.coins, true, ours.fresh⟩)
  else some us

def writeEntries : CCoinsMap → List (Sigma fun _ : uint256 => CCoinsCacheEntry) → Option CCoinsMap
  | us, [] => some us
  | us, ⟨txid, entry⟩ :: rest =>
    match writeEntry us txid entry with
    | none => none
    | some us' => writeEntries us' rest

/-- `CCoinsViewDB::BatchWrite` on one entry: a pruned object
is erased, any other is written. -/
def writeRecord (coins : CoinsMap) (txid : uint256) (entry : CCoinsCacheEntry) : CoinsMap :=
  if entry.dirty then update coins txid entry.coins.store else coins

def writeRecords : CoinsMap → List (Sigma fun _ : uint256 => CCoinsCacheEntry) → CoinsMap
  | coins, [] => coins
  | coins, ⟨txid, entry⟩ :: rest => writeRecords (writeRecord coins txid entry) rest

def batchWrite (mapCoins : CCoinsMap) (hashBlock : uint256) : Option CoinsStack :=
  match s with
  | .db base =>
    some (.db ⟨writeRecords base.coins mapCoins.entries,
      if hashBlock = 0 then base.hashBestChain else hashBlock⟩)
  | .cache top base =>
    (writeEntries top.cacheCoins mapCoins.entries).map fun us => .cache ⟨us, hashBlock⟩ base

def flush : Option CoinsStack :=
  (base.batchWrite top.cacheCoins top.hashBlock).map fun base' =>
    .cache { top with cacheCoins := ∅ } base'

def denote : CoinsStack → CoinsMap
  | .db base, txid => base.coins txid
  | .cache top base, txid =>
    match top.cacheCoins.lookup txid with
    | some entry => entry.coins.store
    | none => denote base txid

def Holds : CoinsStack → uint256 → Prop
  | .db base, txid => base.coins txid ≠ none
  | .cache top _, txid => top.cacheCoins.lookup txid ≠ none

structure EntryOk (base : CoinsStack) (txid : uint256) (entry : CCoinsCacheEntry) : Prop where
  cleaned : entry.coins.cleanup = entry.coins
  clean : entry.dirty = false → entry.coins.store = base.denote txid
  fresh : entry.fresh = true → base.denote txid = none
  known : entry.fresh = false → base.Holds txid

def EntriesOk (us : CCoinsMap) : Prop :=
  ∀ txid entry, us.lookup txid = some entry → EntryOk base txid entry

end

def Inv : CoinsStack → Prop
  | .db _ => True
  | .cache top base => base.Inv ∧ EntriesOk base top.cacheCoins

variable {top : CCoinsViewCache} {base base' : CoinsStack} {txid : uint256}
  {entry : CCoinsCacheEntry} {us : CCoinsMap}

theorem denote_cache_some (h : top.cacheCoins.lookup txid = some entry) :
    (cache top base).denote txid = entry.coins.store := by
  simp only [denote, h]

theorem denote_cache_none (h : top.cacheCoins.lookup txid = none) :
    (cache top base).denote txid = base.denote txid := by
  simp only [denote, h]

theorem denote_cache_empty (top : CCoinsViewCache) (base : CoinsStack)
    (h : top.cacheCoins = ∅) : (cache top base).denote = base.denote := by
  funext txid
  apply denote_cache_none
  rw [h, lookup_empty]

/-- `s'` shows the same map as `s` and has at least its records. -/
structure Extends (s s' : CoinsStack) : Prop where
  denote : s'.denote = s.denote
  holds : ∀ txid, s.Holds txid → s'.Holds txid

theorem EntryOk.extend (h : EntryOk base txid entry) (hb : Extends base base') :
    EntryOk base' txid entry where
  cleaned := h.cleaned
  clean hd := by rw [hb.denote, h.clean hd]
  fresh hf := by rw [hb.denote, h.fresh hf]
  known hf := hb.holds txid (h.known hf)

theorem EntriesOk.extend (h : EntriesOk base us) (hb : Extends base base') : EntriesOk base' us :=
  fun txid entry hl => (h txid entry hl).extend hb

theorem extends_cache (hb : Extends base base') : Extends (cache top base) (cache top base') where
  denote := by
    funext txid
    simp only [CoinsStack.denote, hb.denote]
  holds _ h := h

theorem entriesOk_insert (h : EntriesOk base us) (he : EntryOk base txid entry) :
    EntriesOk base (us.insert txid entry) := by
  intro x e hx
  by_cases hxt : x = txid
  · subst hxt
    rw [lookup_insert] at hx
    cases hx
    exact he
  · rw [lookup_insert_ne hxt] at hx
    exact h x e hx

theorem entriesOk_erase (txid : uint256) (h : EntriesOk base us) :
    EntriesOk base (us.erase txid) := by
  intro x e hx
  by_cases hxt : x = txid
  · subst hxt
    rw [lookup_erase] at hx
    cases hx
  · rw [lookup_erase_ne hxt] at hx
    exact h x e hx

theorem denote_insert (us : CCoinsMap) (hb : uint256) (base : CoinsStack) (txid : uint256)
    (entry : CCoinsCacheEntry) :
    (cache ⟨us.insert txid entry, hb⟩ base).denote =
      update (cache ⟨us, hb⟩ base).denote txid entry.coins.store := by
  funext x
  by_cases hxt : x = txid
  · subst hxt
    rw [update_self, denote_cache_some (lookup_insert _)]
  · rw [update_of_ne hxt]
    simp only [denote, lookup_insert_ne hxt]

theorem denote_erase (us : CCoinsMap) (hb : uint256) (base : CoinsStack) (txid : uint256) :
    (cache ⟨us.erase txid, hb⟩ base).denote =
      update (cache ⟨us, hb⟩ base).denote txid (base.denote txid) := by
  funext x
  by_cases hxt : x = txid
  · subst hxt
    rw [update_self, denote_cache_none (lookup_erase _ _)]
  · rw [update_of_ne hxt]
    simp only [denote, lookup_erase_ne hxt]

structure Fetched (s : CoinsStack) (txid : uint256) (r : Option CCoins) (s' : CoinsStack) :
    Prop where
  inv : s'.Inv
  ext : Extends s s'
  value : r.bind CCoins.store = s.denote txid
  held : r ≠ none → s'.Holds txid
  cleaned : ∀ c, r = some c → c.cleanup = c

theorem fetchCoins_spec (s : CoinsStack) (txid : uint256) (hs : s.Inv) :
    Fetched s txid (s.fetchCoins txid).1 (s.fetchCoins txid).2 := by
  induction s with
  | db base =>
    refine ⟨trivial, ⟨rfl, fun _ h => h⟩, ?_, ?_, ?_⟩
    · simp only [fetchCoins, denote]
      cases base.coins txid with
      | none => rfl
      | some c => simp
    · simp only [fetchCoins, Holds]
      cases base.coins txid with
      | none => simp
      | some c => simp
    · intro c hc
      simp only [fetchCoins, Option.map_eq_some_iff] at hc
      obtain ⟨st, -, rfl⟩ := hc
      exact st.cleaned
  | cache top base ih =>
    obtain ⟨hbase, hentries⟩ := hs
    cases hl : top.cacheCoins.lookup txid with
    | some entry =>
      have hf : (cache top base).fetchCoins txid = (some entry.coins, .cache top base) := by
        simp only [fetchCoins, hl]
      rw [hf]
      refine ⟨⟨hbase, hentries⟩, ⟨rfl, fun _ h => h⟩, ?_, ?_, ?_⟩
      · simp [denote_cache_some hl]
      · simp [Holds, hl]
      · rintro c ⟨⟩
        exact (hentries txid entry hl).cleaned
    | none =>
      obtain ⟨hinv, hext, hval, hheld, hclean⟩ := ih hbase
      cases hb : base.fetchCoins txid with
      | mk r base' =>
        rw [hb] at hinv hext hval hheld hclean
        simp only at hinv hext hval hheld hclean
        cases r with
        | none =>
          have hf : (cache top base).fetchCoins txid = (none, .cache top base') := by
            simp only [fetchCoins, hl, hb]
          rw [hf]
          refine ⟨⟨hinv, hentries.extend hext⟩, extends_cache hext, ?_, ?_, ?_⟩
          · rw [denote_cache_none hl, ← hval]
          · simp
          · simp
        | some tmp =>
          have hf : (cache top base).fetchCoins txid = (some tmp, .cache { top with
                cacheCoins := top.cacheCoins.insert txid ⟨tmp, false, tmp.isPruned⟩ } base') := by
            simp only [fetchCoins, hl, hb]
          rw [hf]
          have htmp : tmp.store = base'.denote txid := by
            rw [hext.denote, ← hval]
            rfl
          have hentry : EntryOk base' txid ⟨tmp, false, tmp.isPruned⟩ := by
            refine ⟨hclean tmp rfl, fun _ => htmp, fun hfr => ?_, fun _ => hheld (by simp)⟩
            rw [← htmp]
            exact (store_eq_none_iff tmp).mpr hfr
          refine ⟨⟨hinv, entriesOk_insert (hentries.extend hext) hentry⟩, ⟨?_, ?_⟩, ?_, ?_, ?_⟩
          · rw [denote_insert, (extends_cache hext).denote, htmp, hext.denote,
              ← denote_cache_none hl, update_eq_self]
          · intro x hx
            by_cases hxt : x = txid
            · subst hxt
              simp [Holds]
            · simpa only [Holds, lookup_insert_ne hxt] using hx
          · rw [denote_cache_none hl, ← hval]
          · simp [Holds]
          · rintro c ⟨⟩
            exact hclean tmp rfl

def EditOk (edit : CCoins → CCoins) : Prop :=
  ∀ c : CCoins, c.vout = [] → (edit c).store = (edit CCoins.clear).store

theorem openEntry_spec (top : CCoinsViewCache) (base : CoinsStack) (txid : uint256)
    (hs : (cache top base).Inv) :
    ((openEntry top base txid).2).Inv ∧ Extends base (openEntry top base txid).2 ∧
      EntryOk (openEntry top base txid).2 txid (openEntry top base txid).1 ∧
      (openEntry top base txid).1.dirty = true ∧
      (openEntry top base txid).1.coins.store = (cache top base).denote txid := by
  obtain ⟨hbase, hentries⟩ := hs
  unfold openEntry
  cases hl : top.cacheCoins.lookup txid with
  | some entry =>
    have he := hentries txid entry hl
    exact ⟨hbase, ⟨rfl, fun _ h => h⟩, ⟨he.cleaned, by simp, he.fresh, he.known⟩, rfl,
      (denote_cache_some hl).symm⟩
  | none =>
    obtain ⟨hinv, hext, hval, hheld, hclean⟩ := fetchCoins_spec base txid hbase
    cases hb : base.fetchCoins txid with
    | mk r base' =>
      rw [hb] at hinv hext hval hheld hclean
      simp only at hinv hext hval hheld hclean
      have hden : base'.denote txid = r.bind CCoins.store := by rw [hext.denote, hval]
      cases r with
      | none =>
        refine ⟨hinv, hext, ⟨rfl, by simp, fun _ => hden, by simp⟩, rfl, ?_⟩
        rw [denote_cache_none hl, ← hval]
        exact store_clear
      | some tmp =>
        refine ⟨hinv, hext, ⟨hclean tmp rfl, by simp, fun hfr => ?_, fun _ => hheld (by simp)⟩,
          rfl, ?_⟩
        · rw [hden]
          exact (store_eq_none_iff tmp).mpr hfr
        · rw [denote_cache_none hl, ← hval]
          rfl

theorem edit_store_congr (edit : CCoins → CCoins) (hedit : EditOk edit) (m : CoinsMap)
    (txid : uint256) (c : CCoins) (hc : c.cleanup = c) (hm : c.store = m txid) :
    (edit c).store = (edit (m.coins txid)).store := by
  cases hs : c.store with
  | none =>
    have hv : c.vout = [] := by
      rw [← hc, cleanup_vout_eq_nil_iff]
      exact (store_eq_none_iff c).mp hs
    have hm' : m.coins txid = CCoins.clear := by
      simp only [CoinsMap.coins, ← hm, hs]
    rw [hm']
    exact hedit c hv
  | some s =>
    have hcs : s.coins = c := by
      rw [((store_eq_some_iff c s).mp hs).2, hc]
    have hm' : m.coins txid = c := by
      simp only [CoinsMap.coins, ← hm, hs, hcs]
    rw [hm']

theorem modifyCoins_spec (top : CCoinsViewCache) (base : CoinsStack) (txid : uint256)
    (edit : CCoins → CCoins) (hedit : EditOk edit) (hs : (cache top base).Inv) :
    (modifyCoins top base txid edit).Inv ∧
      (modifyCoins top base txid edit).denote = (cache top base).denote.modify txid edit := by
  obtain ⟨hinv, hext, hentry, hdirty, hval⟩ := openEntry_spec top base txid hs
  unfold modifyCoins
  cases ho : openEntry top base txid with
  | mk entry base' =>
    rw [ho] at hinv hext hentry hdirty hval
    simp only at hinv hext hentry hdirty hval
    have hentries : EntriesOk base' top.cacheCoins := hs.2.extend hext
    have hden : (cache top base').denote = (cache top base).denote := (extends_cache hext).denote
    have hedited := edit_store_congr edit hedit (cache top base).denote txid entry.coins
      hentry.cleaned hval
    simp only [closeEntry, CoinsMap.modify]
    split_ifs with hgone
    · -- FRESH and fully spent: the view below has nothing either
      simp only [Bool.and_eq_true, isPruned_cleanup] at hgone
      refine ⟨⟨hinv, entriesOk_erase txid hentries⟩, ?_⟩
      rw [denote_erase, hden, hentry.fresh hgone.1, ← hedited,
        (store_eq_none_iff _).mpr hgone.2]
    · refine ⟨⟨hinv, entriesOk_insert hentries ?_⟩, ?_⟩
      · exact ⟨cleanup_cleanup _, by simp [hdirty], hentry.fresh, hentry.known⟩
      · rw [denote_insert, hden, ← hedited]
        simp

theorem EntryOk.congr {us' : CCoinsMap} {hb hb' : uint256}
    (h : EntryOk (cache ⟨us, hb⟩ base) txid entry) (hl : us'.lookup txid = us.lookup txid) :
    EntryOk (cache ⟨us', hb'⟩ base) txid entry where
  cleaned := h.cleaned
  clean hd := by
    rw [h.clean hd]
    simp only [denote, hl]
  fresh hf := by
    rw [← h.fresh hf]
    simp only [denote, hl]
  known hf := by
    have hk := h.known hf
    simpa only [Holds, hl] using hk

theorem writeEntry_spec (us : CCoinsMap) (hb : uint256) (base : CoinsStack) (txid : uint256)
    (entry : CCoinsCacheEntry) (hus : EntriesOk base us)
    (he : EntryOk (cache ⟨us, hb⟩ base) txid entry) :
    ∃ us', writeEntry us txid entry = some us' ∧ EntriesOk base us' ∧
      (cache ⟨us', hb⟩ base).denote txid = entry.coins.store ∧
      ∀ x, x ≠ txid → us'.lookup x = us.lookup x := by
  unfold writeEntry
  by_cases hd : entry.dirty = true
  · rw [if_pos hd]
    cases hl : us.lookup txid with
    | none =>
      -- no entry below, so this one is FRESH and nothing below knows the transaction
      have hfresh : entry.fresh = true := by
        by_contra hf
        exact he.known (by simpa using hf) hl
      have hnone : base.denote txid = none := by
        have hbelow : (cache ⟨us, hb⟩ base).denote txid = base.denote txid := denote_cache_none hl
        rw [← hbelow]
        exact he.fresh hfresh
      cases hp : entry.coins.isPruned with
      | true =>
        refine ⟨us, by simp, hus, ?_, fun _ _ => rfl⟩
        rw [denote_cache_none hl, hnone, (store_eq_none_iff _).mpr hp]
      | false =>
        refine ⟨us.insert txid ⟨entry.coins, true, true⟩, by simp [hfresh],
          entriesOk_insert hus ⟨he.cleaned, by simp, fun _ => hnone, by simp⟩, ?_,
          fun x hx => lookup_insert_ne hx⟩
        rw [denote_cache_some (lookup_insert _)]
    | some ours =>
      have hours := hus txid ours hl
      by_cases hgone : (ours.fresh && entry.coins.isPruned) = true
      · refine ⟨us.erase txid, by simp [hgone], entriesOk_erase txid hus, ?_,
          fun x hx => lookup_erase_ne hx⟩
        simp only [Bool.and_eq_true] at hgone
        rw [denote_cache_none (lookup_erase _ _), hours.fresh hgone.1,
          (store_eq_none_iff _).mpr hgone.2]
      · refine ⟨us.insert txid ⟨entry.coins, true, ours.fresh⟩, by simp [hgone],
          entriesOk_insert hus ⟨he.cleaned, by simp, hours.fresh, hours.known⟩, ?_,
          fun x hx => lookup_insert_ne hx⟩
        rw [denote_cache_some (lookup_insert _)]
  · rw [if_neg hd]
    exact ⟨us, rfl, hus, (he.clean (by simpa using hd)).symm, fun _ _ => rfl⟩

/-- The loop of `BatchWrite`, by induction on the entries still to write: those
not yet written keep their promise because each round touches one key only. -/
theorem writeEntries_spec (l : List (Sigma fun _ : uint256 => CCoinsCacheEntry)) (us : CCoinsMap)
    (hb : uint256) (base : CoinsStack) (hus : EntriesOk base us) (hnd : l.NodupKeys)
    (hl : ∀ txid entry, ⟨txid, entry⟩ ∈ l → EntryOk (cache ⟨us, hb⟩ base) txid entry) :
    ∃ us', writeEntries us l = some us' ∧ EntriesOk base us' ∧ (∀ txid entry, ⟨txid, entry⟩ ∈ l →
        (cache ⟨us', hb⟩ base).denote txid = entry.coins.store) ∧
      ∀ x, x ∉ l.keys → us'.lookup x = us.lookup x := by
  induction l generalizing us with
  | nil => exact ⟨us, rfl, hus, by simp, fun _ _ => rfl⟩
  | cons head rest ih =>
    obtain ⟨txid, entry⟩ := head
    obtain ⟨hfst, hrest⟩ := nodupKeys_cons.mp hnd
    obtain ⟨us₁, hw, hus₁, hval, hframe⟩ :=
      writeEntry_spec us hb base txid entry hus (hl txid entry (by simp))
    have hne : ∀ x e, (⟨x, e⟩ : Sigma fun _ : uint256 => CCoinsCacheEntry) ∈ rest → x ≠ txid := by
      rintro x e hx rfl
      exact hfst (mem_keys.mpr ⟨e, hx⟩)
    obtain ⟨us₂, hw₂, hus₂, hval₂, hframe₂⟩ := ih us₁ hus₁ hrest fun x e hx =>
      (hl x e (mem_cons_of_mem _ hx)).congr (hframe x (hne x e hx))
    refine ⟨us₂, by simp only [writeEntries, hw, hw₂], hus₂, ?_, ?_⟩
    · intro x e hx
      rcases mem_cons.mp hx with heq | hx
      · cases heq
        rw [← hval]
        simp only [denote, hframe₂ txid hfst]
      · exact hval₂ x e hx
    · intro x hx
      simp only [keys_cons, mem_cons, not_or] at hx
      rw [hframe₂ x hx.2, hframe x hx.1]

theorem writeRecords_spec (l : List (Sigma fun _ : uint256 => CCoinsCacheEntry))
    (coins : CoinsMap) (hnd : l.NodupKeys)
    (hl : ∀ txid entry, ⟨txid, entry⟩ ∈ l → entry.dirty = false → entry.coins.store = coins txid) :
    (∀ txid entry, ⟨txid, entry⟩ ∈ l → writeRecords coins l txid = entry.coins.store) ∧
      ∀ x, x ∉ l.keys → writeRecords coins l x = coins x := by
  induction l generalizing coins with
  | nil => exact ⟨by simp, fun _ _ => rfl⟩
  | cons head rest ih =>
    obtain ⟨txid, entry⟩ := head
    obtain ⟨hfst, hrest⟩ := nodupKeys_cons.mp hnd
    have hself : writeRecord coins txid entry txid = entry.coins.store := by
      unfold writeRecord
      split_ifs with hd
      · rw [update_self]
      · exact (hl txid entry (by simp) (by simpa using hd)).symm
    have hframe : ∀ x, x ≠ txid → writeRecord coins txid entry x = coins x := by
      intro x hx
      unfold writeRecord
      split_ifs with hd
      · rw [update_of_ne hx]
      · rfl
    obtain ⟨hval₂, hframe₂⟩ := ih (writeRecord coins txid entry) hrest fun x e hx hd => by
      have hne : x ≠ txid := by
        rintro rfl
        exact hfst (mem_keys.mpr ⟨e, hx⟩)
      rw [hframe x hne]
      exact hl x e (mem_cons_of_mem _ hx) hd
    constructor
    · intro x e hx
      simp only [writeRecords]
      rcases mem_cons.mp hx with heq | hx
      · cases heq
        rw [hframe₂ txid hfst, hself]
      · exact hval₂ x e hx
    · intro x hx
      simp only [keys_cons, mem_cons, not_or] at hx
      simp only [writeRecords]
      rw [hframe₂ x hx.2, hframe x hx.1]

theorem flush_spec (top : CCoinsViewCache) (base : CoinsStack) (hs : (cache top base).Inv) :
    ∃ base', flush top base = some (cache { top with cacheCoins := ∅ } base') ∧
      base'.Inv ∧ base'.denote = (cache top base).denote := by
  obtain ⟨hbase, hentries⟩ := hs
  have hmem : ∀ txid entry, (⟨txid, entry⟩ : Sigma fun _ : uint256 => CCoinsCacheEntry) ∈
      top.cacheCoins.entries → top.cacheCoins.lookup txid = some entry :=
    fun txid entry h => mem_lookup_iff.mpr h
  have hcases : ∀ m : CoinsMap,
      (∀ txid entry, (⟨txid, entry⟩ : Sigma fun _ : uint256 => CCoinsCacheEntry) ∈
        top.cacheCoins.entries → m txid = entry.coins.store) →
      (∀ x, x ∉ top.cacheCoins.entries.keys → m x = base.denote x) →
      m = (cache top base).denote := by
    intro m hin hout
    funext x
    cases hx : top.cacheCoins.lookup x with
    | some entry =>
      rw [denote_cache_some hx]
      exact hin x entry (mem_lookup_iff.mp hx)
    | none =>
      rw [denote_cache_none hx]
      exact hout x (lookup_eq_none.mp hx)
  cases base with
  | db d =>
    obtain ⟨hval, hframe⟩ := writeRecords_spec top.cacheCoins.entries d.coins
      top.cacheCoins.nodupKeys fun txid entry h hd => (hentries _ _ (hmem _ _ h)).clean hd
    refine ⟨.db ⟨writeRecords d.coins top.cacheCoins.entries,
      if top.hashBlock = 0 then d.hashBestChain else top.hashBlock⟩, rfl, trivial, ?_⟩
    exact hcases _ hval hframe
  | cache p g =>
    obtain ⟨us, hw, hus, hval, hframe⟩ := writeEntries_spec top.cacheCoins.entries p.cacheCoins
      top.hashBlock g hbase.2 top.cacheCoins.nodupKeys
      fun txid entry h => (hentries _ _ (hmem _ _ h)).congr rfl
    refine ⟨cache ⟨us, top.hashBlock⟩ g, by simp [flush, batchWrite, hw], ⟨hbase.1, hus⟩, ?_⟩
    apply hcases _ hval
    intro x hx
    simp only [denote, hframe x hx]

end CoinsStack
end Alqo
