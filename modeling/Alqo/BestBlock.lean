import Alqo.CoinsCache

/-!
# The best block of a stack of coin caches (coins.cpp, txdb.cpp)

A null hash stands for "not asked yet". `BatchWrite` of a cache copies the hash it is given, null or
not; the database ignores a null one. Views that pass both calls on (`CCoinsViewBacked`) are not
layers here.
-/

namespace Alqo.CoinsStack

/-- `GetBestBlock` and the stack with the
hashes it has remembered on the way. -/
def getBestBlock : CoinsStack → uint256 × CoinsStack
  | .db base => (base.hashBestChain, .db base)
  | .cache top base =>
    if top.hashBlock = 0 then
      (base.getBestBlock.1, .cache { top with hashBlock := base.getBestBlock.1 } base.getBestBlock.2)
    else (top.hashBlock, .cache top base)

def hashes : CoinsStack → List uint256
  | .db base => [base.hashBestChain]
  | .cache top base => top.hashBlock :: base.hashes

def firstKnown (l : List uint256) : uint256 := (l.find? fun hash => hash != 0).getD 0

theorem firstKnown_nil : firstKnown [] = 0 := rfl

theorem firstKnown_cons (hash : uint256) (l : List uint256) :
    firstKnown (hash :: l) = if hash = 0 then firstKnown l else hash := by
  unfold firstKnown
  by_cases h : hash = 0
  · rw [if_pos h, List.find?_cons_of_neg (by simpa using h)]
  · rw [if_neg h, List.find?_cons_of_pos (by simpa using h)]
    rfl

theorem getBestBlock_eq (s : CoinsStack) : s.getBestBlock.1 = firstKnown s.hashes := by
  induction s with
  | db base =>
    rw [hashes, firstKnown_cons, firstKnown_nil]
    by_cases h : base.hashBestChain = 0
    · rw [if_pos h]
      exact h
    · rw [if_neg h]
      rfl
  | cache top base ih =>
    rw [getBestBlock, hashes, firstKnown_cons]
    by_cases h : top.hashBlock = 0
    · rw [if_pos h, if_pos h, ih]
    · rw [if_neg h, if_neg h]

theorem getBestBlock_remembers (s : CoinsStack) :
    s.getBestBlock.2.hashes.head? = some s.getBestBlock.1 := by
  cases s with
  | db base => rfl
  | cache top base =>
    rw [getBestBlock]
    by_cases h : top.hashBlock = 0
    · rw [if_pos h]
      rfl
    · rw [if_neg h]
      rfl

def hashesAfter (hashBlock : uint256) : CoinsStack → List uint256
  | .db base => [if hashBlock = 0 then base.hashBestChain else hashBlock]
  | .cache _ base => hashBlock :: base.hashes

theorem batchWrite_hashes {s s' : CoinsStack} {mapCoins : CCoinsMap} {hashBlock : uint256}
    (h : s.batchWrite mapCoins hashBlock = some s') : s'.hashes = s.hashesAfter hashBlock := by
  cases s with
  | db base =>
    simp only [batchWrite, Option.some.injEq] at h
    rw [← h]
    rfl
  | cache top base =>
    obtain ⟨us, -, hus⟩ := Option.map_eq_some_iff.mp h
    rw [← hus]
    rfl

def BestKept (top : CCoinsViewCache) : CoinsStack → Prop
  | .db _ => True
  | .cache parent base =>
    top.hashBlock ≠ 0 ∨ parent.hashBlock = 0 ∨ parent.hashBlock = base.getBestBlock.1

instance (top : CCoinsViewCache) : (base : CoinsStack) → Decidable (BestKept top base)
  | .db _ => inferInstanceAs (Decidable True)
  | .cache _ _ => inferInstanceAs (Decidable (_ ∨ _))

variable {top top' : CCoinsViewCache} {base base' : CoinsStack}

theorem flush_eq (h : flush top base = some (.cache top' base')) :
    base.batchWrite top.cacheCoins top.hashBlock = some base' := by
  obtain ⟨written, hwritten, heq⟩ := Option.map_eq_some_iff.mp h
  cases heq
  exact hwritten

theorem batchWrite_keeps_iff (h : base.batchWrite top.cacheCoins top.hashBlock = some base') :
    base'.getBestBlock.1 = (CoinsStack.cache top base).getBestBlock.1 ↔ BestKept top base := by
  rw [getBestBlock_eq, getBestBlock_eq, batchWrite_hashes h, hashes, firstKnown_cons]
  cases base with
  | db below =>
    simp only [hashes, hashesAfter, BestKept, iff_true]
    by_cases hnull : top.hashBlock = 0
    · rw [if_pos hnull, if_pos hnull]
    · rw [if_neg hnull, if_neg hnull, firstKnown_cons, if_neg hnull]
  | cache parent below =>
    simp only [hashes, hashesAfter, BestKept, firstKnown_cons, getBestBlock_eq]
    by_cases hnull : top.hashBlock = 0
    · rw [if_pos hnull, if_pos hnull]
      by_cases hparent : parent.hashBlock = 0
      · rw [if_pos hparent]
        exact ⟨fun _ => .inr (.inl hparent), fun _ => rfl⟩
      · rw [if_neg hparent]
        constructor
        · intro heq
          exact .inr (.inr heq.symm)
        · intro hkept
          rcases hkept with h0 | h0 | heq
          · exact absurd hnull h0
          · exact absurd h0 hparent
          · exact heq.symm
    · rw [if_neg hnull, if_neg hnull]
      exact ⟨fun _ => .inl hnull, fun _ => rfl⟩

theorem bestKept_of_read (h : (CoinsStack.cache top base).getBestBlock.2 = .cache top' base') :
    BestKept top' base' := by
  rw [getBestBlock] at h
  by_cases hnull : top.hashBlock = 0
  · rw [if_pos hnull, CoinsStack.cache.injEq] at h
    obtain ⟨htop, hbase⟩ := h
    cases base' with
    | db below => trivial
    | cache parent below =>
      by_cases hbest : base.getBestBlock.1 = 0
      · right
        left
        have hhead := base.getBestBlock_remembers
        rw [hbase, hbest] at hhead
        exact Option.some.inj hhead
      · left
        rw [← htop]
        exact hbest
  · rw [if_neg hnull, CoinsStack.cache.injEq] at h
    obtain ⟨htop, hbase⟩ := h
    cases base' with
    | db below => trivial
    | cache parent below =>
      left
      rw [← htop]
      exact hnull

/-- After `Flush` the parent reports what the child reported before, exactly if
`BestKept` holds; a child that has been asked for its best block always meets it. -/
theorem flush_reports_iff {top top' : CCoinsViewCache} {base base' : CoinsStack}
    (h : flush top base = some (.cache top' base')) :
    (base'.getBestBlock.1 = (CoinsStack.cache top base).getBestBlock.1 ↔ BestKept top base) ∧
      ∀ asked below, (CoinsStack.cache top base).getBestBlock.2 = .cache asked below →
        BestKept asked below := by
  constructor
  · exact batchWrite_keeps_iff (flush_eq h)
  · intro asked below hread
    exact bestKept_of_read hread

def newChild : CoinsStack :=
  .cache {} (.cache { hashBlock := 2 } (.db { coins := fun _ => none, hashBestChain := 1 }))

theorem flush_reports_read : ∃ top base top' base', newChild.getBestBlock.2 = .cache top base ∧
      flush top base = some (.cache top' base') ∧ base'.getBestBlock.1 = top.hashBlock := by
  have hflush : flush { hashBlock := 2 } (.cache { hashBlock := 2 }
      (.db { coins := fun _ => none, hashBestChain := 1 })) = some (.cache { hashBlock := 2 }
        (.cache { hashBlock := 2 } (.db { coins := fun _ => none, hashBestChain := 1 }))) := rfl
  exact ⟨_, _, _, _, rfl, hflush, (flush_reports_iff hflush).1.mpr (by decide)⟩

/-- The new cache is flushed before anybody asked it. -/
theorem newChild_forgets : newChild.getBestBlock.1 = 2 ∧
      ∃ top' base', flush {} (.cache { hashBlock := 2 }
          (.db { coins := fun _ => none, hashBestChain := 1 })) = some (.cache top' base') ∧
        base'.getBestBlock.1 = 1 := by
  refine ⟨rfl, _, _, rfl, rfl⟩

end Alqo.CoinsStack
