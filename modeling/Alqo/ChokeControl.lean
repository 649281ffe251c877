import Alqo.IndexRuns

/-!
# Activation under choke control (main.cpp)

While SPORK_17 is active, `ConnectBlock` connects nothing: it rejects a block or calls
`InvalidateBlock` and `ActivateBestChain`. `Worn` says what such calls can do to the index.
-/

namespace Alqo.ChainIndex
open Lib.Branches List

/-- How `ConnectBlock` ends under choke control, by what `CheckBlock` says of the stored
blocks: `some corruptionPossible` when it rejects one. -/
def chokeVerdict (rejected : uint256 → Option Bool) (hash : uint256) : ConnectVerdict :=
  match rejected hash with
  | some corruptionPossible => .invalid corruptionPossible
  | none => .choked

/-- `ActivateBestChain` under choke control. The call of
`ActivateBestChain` inside `ConnectBlock` is the last thing that happens, since all callers
then return false; so its turns follow those of the caller. `none` when an assertion fails
or `fuel` turns are not enough. -/
def activateChoked (env : ChainEnv) (rejected : uint256 → Option Bool) :
    Nat → ChainIndex → Option ChainIndex
  | 0, _ => none
  | fuel + 1, s =>
    match s.findMostWorkChain env with
    | none => none
    | some (none, s) => some s
    | some (some pindexMostWork, s) =>
      if pindexMostWork = s.tip then some s
      else
        match s.activateBestChainStep env (chokeVerdict rejected) pindexMostWork with
        | none => none
        | some s => if s.tip = pindexMostWork then some s else activateChoked env rejected fuel s

structure Worn (s t : ChainIndex) : Prop where
  tree : SameTree s t
  marked : ∀ h, (s.status h).fFailedValid = true → (t.status h).fFailedValid = true
  failed : ∀ h, (s.status h).failed = true → (t.status h).failed = true
  gained : ∀ c ∈ t.setBlockIndexCandidates,
    c ∈ s.setBlockIndexCandidates ∨ (s.status c).failed = false
  lost : ∀ c ∈ s.setBlockIndexCandidates, c ∈ t.setBlockIndexCandidates ∨ (t.status c).failed = true
  tip : t.tip ∈ s.branch s.tip

namespace Worn

variable {env : ChainEnv} {s t u : ChainIndex} {x : uint256}

theorem refl (s : ChainIndex) : Worn s s :=
  ⟨SameTree.refl s, fun _ h => h, fun _ h => h, fun _ h => .inl h, fun _ h => .inl h,
    s.self_mem s.tip⟩

theorem trans (hg : Graded s.pprev s.nHeight) (h : Worn s t) (h' : Worn t u) : Worn s u where
  tree := h.tree.trans h'.tree
  marked x hx := h'.marked x (h.marked x hx)
  failed x hx := h'.failed x (h.failed x hx)
  gained c hc := by
    rcases h'.gained c hc with hold | hclean
    · exact h.gained c hold
    · right
      cases hs : (s.status c).failed with
      | false => rfl
      | true =>
        rw [h.failed c hs] at hclean
        cases hclean
  lost c hc := by
    rcases h.lost c hc with hkept | hmark
    · exact h'.lost c hkept
    · exact .inr (h'.failed c hmark)
  tip := by
    have htip := h'.tip
    rw [h.tree.branch] at htip
    exact mem_branch_trans hg htip h.tip

theorem graded (h : Worn s t) (hg : Graded s.pprev s.nHeight) : Graded t.pprev t.nHeight := by
  rw [h.tree.pprev, h.tree.nHeight]
  exact hg

theorem of_mark {mark : BlockStatus → BlockStatus} (hx : x ∈ s.mapBlockIndex)
    (hdata : KeepsData mark)
    (hvalid : ∀ st : BlockStatus, st.fFailedValid = true → (mark st).fFailedValid = true)
    (hfailed : ∀ st : BlockStatus, (mark st).failed = true) :
    Worn s ((s.updateStatus x mark).eraseCandidate x) := by
  have hstatus : ∀ h, ((s.updateStatus x mark).eraseCandidate x).status h =
      if h = x then mark (s.status h) else s.status h := fun h => status_updateStatus hx
  refine ⟨(sameTree_updateStatus hdata s x).trans (sameTree_eraseCandidate _ x),
    fun h hm => ?_, fun h hm => ?_, fun c hc => ?_, fun c hc => ?_, ?_⟩
  · rw [hstatus]
    split_ifs
    · exact hvalid _ hm
    · exact hm
  · rw [hstatus]
    split_ifs
    · exact hfailed _
    · exact hm
  · rw [mem_eraseCandidate, updateStatus_candidates] at hc
    exact .inl hc.1
  · rw [mem_eraseCandidate, updateStatus_candidates, hstatus]
    by_cases hcx : c = x
    · rw [if_pos hcx]
      exact .inr (hfailed _)
    · exact .inl ⟨hc, hcx⟩
  · show (s.updateStatus x mark).tip ∈ s.branch s.tip
    rw [updateStatus_tip]
    exact s.self_mem s.tip

theorem markInvalid (hx : x ∈ s.mapBlockIndex) : Worn s (s.markInvalid x) :=
  of_mark hx keepsData_markFailedValid (fun _ _ => rfl) fun _ => rfl

theorem disconnectFailed (hx : x ∈ s.mapBlockIndex) : Worn s (s.disconnectFailed x) :=
  of_mark hx keepsData_markFailedChild (fun _ h => h) fun st => by
    simp [BlockStatus.failed, BlockStatus.markFailedChild]

theorem foldl_disconnectFailed {l : List uint256} (hg : Graded s.pprev s.nHeight)
    (hl : ∀ x ∈ l, x ∈ s.mapBlockIndex) : Worn s (l.foldl ChainIndex.disconnectFailed s) := by
  induction l generalizing s with
  | nil => exact refl s
  | cons x l ih =>
    have hx : Worn s (s.disconnectFailed x) := disconnectFailed (hl x mem_cons_self)
    refine hx.trans hg (ih (hx.graded hg) fun y hy => ?_)
    exact (hx.tree.mem y).mpr (hl y (mem_cons_of_mem x hy))

theorem setTip (hx : x ∈ s.branch s.tip) : Worn s { s with tip := x } :=
  ⟨sameTree_tip s x, fun _ h => h, fun _ h => h, fun _ h => .inl h, fun _ h => .inl h, hx⟩

theorem eraseCandidate (hx : (s.status x).failed = true) : Worn s (s.eraseCandidate x) := by
  refine ⟨sameTree_eraseCandidate s x, fun _ h => h, fun _ h => h, fun c hc => ?_, fun c hc => ?_,
    s.self_mem s.tip⟩
  · exact .inl (mem_eraseCandidate.mp hc).1
  · by_cases hcx : c = x
    · rw [hcx]
      exact .inr hx
    · exact .inl (mem_eraseCandidate.mpr ⟨hc, hcx⟩)

theorem offerAll (env : ChainEnv) (s : ChainIndex) : Worn s (s.offerAll env) := by
  obtain ⟨htip, hstatus⟩ := offerAll_keeps env s
  refine ⟨sameTree_offerAll env s, ?_, ?_, fun c hc => ?_, fun c hc => ?_, ?_⟩
  · rw [hstatus]
    exact fun _ h => h
  · rw [hstatus]
    exact fun _ h => h
  · rcases mem_offerAll.mp hc with hold | hu
    · exact .inl hold
    · have hvalid := hu.1
      simp only [BlockStatus.isValid, Bool.and_eq_true, Bool.not_eq_true'] at hvalid
      exact .inr hvalid.1
  · exact .inl (mem_offerAll.mpr (.inl hc))
  · rw [htip]
    exact s.self_mem s.tip

theorem cutOff_of_marked (hb : s.Base env) (hx : x ∈ s.mapBlockIndex) :
    Worn (s.markInvalid x) (s.cutOff x) := by
  have hmark : Worn s (s.markInvalid x) := markInvalid hx
  cases hc : s.contains x with
  | false =>
    rw [cutOff_of_inactive hc]
    exact refl _
  | true =>
    have hknown : ∀ y ∈ s.disconnected x, y ∈ (s.markInvalid x).mapBlockIndex := fun y hy =>
      (hmark.tree.mem y).mpr (hb.tip.of_mem hb (disconnected_spec hb hc hy).1).mem
    have hfold := foldl_disconnectFailed (hmark.graded hb.graded) hknown
    have htip := cutOff_tip_mem hb x
    rw [cutOff_of_active hc] at htip ⊢
    apply hfold.trans (hmark.graded hb.graded)
    apply setTip
    rw [hfold.tree.branch, hmark.tree.branch,
      foldl_keeps ChainIndex.tip disconnectFailed_tip, markInvalid_tip]
    exact htip

theorem invalidateBlock_of_marked (hb : s.Base env) (hx : x ∈ s.mapBlockIndex) :
    Worn (s.markInvalid x) (s.invalidateBlock env x) := by
  have hcut := cutOff_of_marked hb hx
  unfold ChainIndex.invalidateBlock
  split_ifs
  · exact hcut
  · exact hcut.trans ((markInvalid hx).graded hb.graded) (offerAll env _)

theorem invalidateBlock (hb : s.Base env) (hx : x ∈ s.mapBlockIndex) :
    Worn s (s.invalidateBlock env x) :=
  (markInvalid hx).trans hb.graded (invalidateBlock_of_marked hb hx)

theorem dropChain {above : List uint256} (hb : s.Base env) (hd : s.Dropped above x) :
    Worn s (s.dropChain above x) := by
  rw [dropChain_of_failed hd.failed]
  have hfold := foldl_disconnectFailed hb.graded hd.known
  exact hfold.trans hb.graded (eraseCandidate (hfold.failed x hd.failed))

theorem findMostWorkChain {r : Option uint256} (hb : s.Base env)
    (h : s.findMostWorkChain env = some (r, t)) : t.Base env ∧ Worn s t := by
  refine (findMostWorkChain_rule (fun u => u.Base env ∧ Worn s u) ?_ ⟨hb, refl s⟩ h).1
  intro u m x rest hu hbest htest
  have hd := dropped_of_round hu.1 hbest htest
  exact ⟨hd.base hu.1, hu.2.trans hb.graded (dropChain hu.1 hd)⟩

end Worn

variable {env : ChainEnv} {rejected : uint256 → Option Bool} {s t : ChainIndex} {x m c : uint256}
  {fuel : Nat}

theorem marked_invalidateBlock (hb : s.Base env) (hx : x ∈ s.mapBlockIndex) :
    ((s.invalidateBlock env x).status x).fFailedValid = true := by
  apply (Worn.invalidateBlock_of_marked hb hx).marked
  rw [status_markInvalid hx, if_pos rfl]
  rfl

theorem findFork_spec (hb : s.Base env) (hm : m ∈ s.mapBlockIndex) :
    (s.branch m).find? s.contains = some (s.findFork env m) := by
  unfold findFork
  cases hf : (s.branch m).find? s.contains with
  | some x => rfl
  | none =>
    have hnone := find?_eq_none.mp hf _ (genesis_mem_branch hb hm)
    exact absurd (contains_genesis hb) hnone

theorem findFork_mem (hb : s.Base env) (hm : m ∈ s.mapBlockIndex) :
    s.findFork env m ∈ s.branch s.tip :=
  contains_iff.mp (find?_some (findFork_spec hb hm))

/- The step takes the tip down to the fork and marks the first block above it, unless the
stored copy of that block may be corrupt. -/
theorem chokedStep_cases (hb : s.Base env) (hm : m ∈ s.setBlockIndexCandidates)
    (h : s.activateBestChainStep env (chokeVerdict rejected) m = some t) :
    (s.offChain m = [] ∧ t = { s with tip := s.findFork env m }) ∨
      ∃ b, (s.offChain m).getLast? = some b ∧
        ((rejected b = some true ∧ t = { s with tip := s.findFork env m }) ∨
          (rejected b ≠ some true ∧ (t.status b).fFailedValid = true ∧
            Worn { s with tip := s.findFork env m } t)) := by
  have hready : s.Ready m := hb.candidate m hm
  have hbf : ({ s with tip := s.findFork env m } : ChainIndex).Base env :=
    hb.of_sameTree (sameTree_tip s _) hb.candidate (findFork_ready hb hready)
  unfold activateBestChainStep at h
  cases hoff : (s.offChain m).reverse with
  | nil =>
    rw [hoff] at h
    cases h
    exact .inl ⟨reverse_eq_nil_iff.mp hoff, rfl⟩
  | cons b rest =>
    have hlast : (s.offChain m).getLast? = some b := by
      rw [← head?_reverse, hoff]
      rfl
    have hknown : b ∈ ({ s with tip := s.findFork env m } : ChainIndex).mapBlockIndex :=
      (hready.of_mem hb (offChain_subset (mem_of_getLast? hlast))).mem
    rw [hoff, connectBlocks, chokeVerdict] at h
    refine .inr ⟨b, hlast, ?_⟩
    cases hr : rejected b with
    | none =>
      rw [hr] at h
      cases h
      exact .inr ⟨by simp, marked_invalidateBlock hbf hknown, Worn.invalidateBlock hbf hknown⟩
    | some corruptionPossible =>
      rw [hr] at h
      cases h
      cases corruptionPossible with
      | true => exact .inl ⟨rfl, rfl⟩
      | false =>
        refine .inr ⟨by simp, ?_, Worn.markInvalid hknown⟩
        simp only [invalidBlockFound, Bool.false_eq_true, if_false]
        rw [status_markInvalid hknown, if_pos rfl]
        rfl

theorem chokedStep_worn (hb : s.Base env) (hm : m ∈ s.setBlockIndexCandidates)
    (h : s.activateBestChainStep env (chokeVerdict rejected) m = some t) : Worn s t := by
  have hfork : Worn s { s with tip := s.findFork env m } :=
    Worn.setTip (findFork_mem hb (hb.candidate m hm).mem)
  rcases chokedStep_cases hb hm h with ⟨-, heq⟩ | ⟨b, -, ⟨-, heq⟩ | ⟨-, -, hworn⟩⟩
  · rw [heq]
    exact hfork
  · rw [heq]
    exact hfork
  · exact hfork.trans hb.graded hworn

theorem find_candidate (h : s.findMostWorkChain env = some (some m, t)) :
    m ∈ t.setBlockIndexCandidates := by
  have hbest := (findMostWorkChain_rule (fun _ => True) (fun _ _ _ _ _ _ _ => trivial) trivial h).2.1
  exact argmax_mem hbest

theorem activateChoked_worn (hb : s.Base env) (h : activateChoked env rejected fuel s = some t) :
    Worn s t := by
  induction fuel generalizing s with
  | zero => cases h
  | succ fuel ih =>
    unfold activateChoked at h
    cases hfind : s.findMostWorkChain env with
    | none => simp [hfind] at h
    | some found =>
      obtain ⟨r, u⟩ := found
      obtain ⟨hbu, hsu⟩ := Worn.findMostWorkChain hb hfind
      cases r with
      | none =>
        simp only [hfind, Option.some.injEq] at h
        exact h ▸ hsu
      | some m =>
        simp only [hfind] at h
        by_cases hm : m = u.tip
        · rw [if_pos hm] at h
          cases h
          exact hsu
        · rw [if_neg hm] at h
          cases hstep : u.activateBestChainStep env (chokeVerdict rejected) m with
          | none => simp [hstep] at h
          | some v =>
            have hcand := find_candidate hfind
            have hbv := activateBestChainStep_base hbu hcand hstep
            have hsv := hsu.trans hb.graded (chokedStep_worn hbu hcand hstep)
            simp only [hstep] at h
            by_cases hv : v.tip = m
            · rw [if_pos hv] at h
              cases h
              exact hsv
            · rw [if_neg hv] at h
              exact hsv.trans hb.graded (ih hbv h)

theorem find_of_usable {r : Option uint256} (hbest : s.bestCandidate env = some c)
    (htest : ((s.offChain c).dropWhile fun x => !s.unusable x) = [])
    (h : s.findMostWorkChain env = some (r, t)) : r = some c ∧ t = s := by
  rw [findMostWorkChain] at h
  split at h
  · rename_i hnone
    rw [hnone] at hbest
    cases hbest
  · rename_i m hm
    rw [hm] at hbest
    cases hbest
    dsimp only at h
    split at h
    · split_ifs at h
      cases h
      exact ⟨rfl, rfl⟩
    · rename_i x rest hx
      rw [htest] at hx
      cases hx

theorem find_of_unusable {found : Option uint256 × ChainIndex} {rest : List uint256}
    (hbest : s.bestCandidate env = some c)
    (htest : ((s.offChain c).dropWhile fun x => !s.unusable x) = x :: rest)
    (h : s.findMostWorkChain env = some found) :
    (s.dropChain ((s.offChain c).takeWhile fun x => !s.unusable x) x).findMostWorkChain env =
      some found := by
  rw [findMostWorkChain] at h
  split at h
  · rename_i hnone
    rw [hnone] at hbest
    cases hbest
  · rename_i m hm
    rw [hm] at hbest
    cases hbest
    dsimp only at h
    split at h
    · rename_i hx
      rw [htest] at hx
      cases hx
    · rename_i y more hy
      rw [htest] at hy
      cases hy
      split_ifs at h
      exact h

theorem offChain_eq_nil_iff : s.offChain c = [] ↔ s.contains c = true := by
  obtain ⟨tail, htail⟩ := s.branch_cons c
  unfold offChain
  rw [htail, takeWhile_cons]
  cases s.contains c with
  | true => simp
  | false => simp

theorem contains_fork (hb : s.Base env) (hc : c ∈ s.mapBlockIndex) (hx : x ∈ s.branch c) :
    ({ s with tip := s.findFork env c } : ChainIndex).contains x = s.contains x := by
  rw [Bool.eq_iff_iff, contains_iff, contains_iff]
  constructor
  · intro hfork
    exact mem_branch_trans hb.graded hfork (findFork_mem hb hc)
  · intro htip
    obtain ⟨-, above, below, hsplit, hclean⟩ :=
      find?_eq_some_iff_append.mp (findFork_spec hb hc)
    rw [hsplit] at hx
    rcases mem_append.mp hx with habove | hrest
    · have hinactive := hclean x habove
      rw [contains_iff.mpr htip] at hinactive
      cases hinactive
    · rcases mem_cons.mp hrest with heq | hbelow
      · rw [heq]
        exact self_mem_branch _
      · obtain ⟨upper, lower, hlower⟩ := append_of_mem hbelow
        have hlonger : s.branch c = (above ++ s.findFork env c :: upper) ++ x :: lower := by
          rw [hsplit, hlower]
          simp
        exact mem_branch_of_append hb.graded hlonger (by simp)

theorem takeWhile_congr {p q : uint256 → Bool} {l : List uint256} (h : ∀ x ∈ l, p x = q x) :
    l.takeWhile p = l.takeWhile q := by
  induction l with
  | nil => rfl
  | cons x l ih =>
    rw [takeWhile_cons, takeWhile_cons, h x mem_cons_self,
      ih fun y hy => h y (mem_cons_of_mem x hy)]

theorem offChain_fork (hb : s.Base env) (hc : c ∈ s.mapBlockIndex) :
    ({ s with tip := s.findFork env c } : ChainIndex).offChain c = s.offChain c :=
  takeWhile_congr fun x hx => by rw [contains_fork hb hc hx]

theorem activateChoked_stuck (hb : s.Base env) (hbest : s.bestCandidate env = some c)
    (htest : ((s.offChain c).dropWhile fun x => !s.unusable x) = []) {b : uint256}
    (hlast : (s.offChain c).getLast? = some b) (hr : rejected b = some true) (fuel : Nat) :
    activateChoked env rejected fuel s = none := by
  induction fuel generalizing s with
  | zero => rfl
  | succ fuel ih =>
    have hcand : c ∈ s.setBlockIndexCandidates := argmax_mem hbest
    have hknown : c ∈ s.mapBlockIndex := (hb.candidate c hcand).mem
    have hinactive : s.contains c ≠ true := by
      intro hactive
      rw [offChain_eq_nil_iff.mpr hactive] at hlast
      cases hlast
    unfold activateChoked
    cases hfind : s.findMostWorkChain env with
    | none => rfl
    | some found =>
      obtain ⟨r, u⟩ := found
      obtain ⟨hr', hu⟩ := find_of_usable hbest htest hfind
      subst hr' hu
      have htip : c ≠ u.tip := by
        intro heq
        apply hinactive
        rw [contains_iff, heq]
        exact u.self_mem _
      dsimp only
      rw [if_neg htip]
      cases hstep : u.activateBestChainStep env (chokeVerdict rejected) c with
      | none => rfl
      | some v =>
        have hv : v = { u with tip := u.findFork env c } := by
          rcases chokedStep_cases hb hcand hstep with ⟨hnil, -⟩ | ⟨b', hlast', ⟨-, hv⟩ | ⟨hne, -⟩⟩
          · rw [hnil] at hlast
            cases hlast
          · exact hv
          · rw [hlast] at hlast'
            cases hlast'
            exact absurd hr hne
        have hbv := activateBestChainStep_base hb hcand hstep
        have hfork : v.tip ≠ c := by
          intro heq
          apply hinactive
          rw [contains_iff, ← heq, hv]
          exact findFork_mem hb hknown
        have hoff : v.offChain c = u.offChain c := by
          rw [hv]
          exact offChain_fork hb hknown
        dsimp only
        rw [if_neg hfork]
        apply ih hbv
        · rw [hv]
          exact hbest
        · rw [hoff, hv]
          exact htest
        · rw [hoff]
          exact hlast

theorem settled_of_unchanged (hb : s.Base env) (h : activateChoked env rejected fuel s = some t)
    (hstatus : ∀ x, t.status x = s.status x)
    (hcand : ∀ x, x ∈ t.setBlockIndexCandidates ↔ x ∈ s.setBlockIndexCandidates)
    (htip : t.tip = s.tip) (hbest : s.bestCandidate env = some c) : c = s.tip := by
  by_contra hne
  have hc : c ∈ s.setBlockIndexCandidates := argmax_mem hbest
  cases fuel with
  | zero => cases h
  | succ fuel =>
    have hwhole := h
    unfold activateChoked at h
    cases hfind : s.findMostWorkChain env with
    | none => simp [hfind] at h
    | some found =>
      cases htest : (s.offChain c).dropWhile fun x => !s.unusable x with
      | cons x rest =>
        -- the chain is unusable: the candidate is dropped, and it is failed from then on
        have hd := dropped_of_round hb hbest htest
        have hrest : activateChoked env rejected (fuel + 1)
            (s.dropChain ((s.offChain c).takeWhile fun x => !s.unusable x) x) = some t := by
          unfold activateChoked
          rw [find_of_unusable hbest htest hfind, ← h, hfind]
        have hworn := activateChoked_worn (hd.base hb) hrest
        have hgone : c ∈ (s.offChain c).takeWhile (fun x => !s.unusable x) ∨ c = x :=
          offChain_head htest
        rcases hworn.gained c ((hcand c).mpr hc) with hkept | hclean
        · rcases hgone with habove | heq
          · exact (mem_dropChain.mp hkept).2.1 habove
          · exact (mem_dropChain.mp hkept).2.2 heq
        · rw [hd.status] at hclean
          split_ifs at hclean with habove
          · simp [BlockStatus.failed, BlockStatus.markFailedChild] at hclean
          · rw [hgone.resolve_left habove, hd.failed] at hclean
            cases hclean
      | nil =>
        obtain ⟨r, u⟩ := found
        obtain ⟨hr, hu⟩ := find_of_usable hbest htest hfind
        subst hr hu
        simp only [hfind] at h
        rw [if_neg hne] at h
        cases hstep : u.activateBestChainStep env (chokeVerdict rejected) c with
        | none => simp [hstep] at h
        | some v =>
          simp only [hstep] at h
          have hvt : Worn v t := by
            by_cases hv : v.tip = c
            · rw [if_pos hv] at h
              cases h
              exact Worn.refl t
            · rw [if_neg hv] at h
              exact activateChoked_worn (activateBestChainStep_base hb hc hstep) h
          rcases chokedStep_cases hb hc hstep with ⟨hnil, hv⟩ | ⟨b, hlast, ⟨hr, -⟩ | ⟨-, hmark, -⟩⟩
          · -- an active block below the tip becomes the tip
            have hfork : v.tip = c := by
              obtain ⟨tail, htail⟩ := u.branch_cons c
              have hspec := findFork_spec hb (hb.candidate c hc).mem
              rw [htail, find?_cons_of_pos (offChain_eq_nil_iff.mp hnil)] at hspec
              rw [hv]
              exact (Option.some.inj hspec).symm
            rw [if_pos hfork] at h
            cases h
            exact hne (hfork.symm.trans htip)
          · rw [activateChoked_stuck hb hbest htest hlast hr] at hwhole
            cases hwhole
          · -- the first block above the fork was usable and is marked now
            have husable := dropWhile_eq_nil_iff.mp htest b (mem_of_getLast? hlast)
            have hafter := hvt.marked b hmark
            rw [hstatus] at hafter
            simp [unusable, BlockStatus.failed, hafter] at husable

end Alqo.ChainIndex
