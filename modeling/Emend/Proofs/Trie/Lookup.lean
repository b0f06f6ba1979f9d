import Emend.Proofs.Trie.Built

/-! What is found in a trie: a stored typo by its own text, the stored typo that a text ends in, and
the nodes on the way to stored typos. -/
namespace Emend.Trie
variable {t : Trie} {i depth d k n : Nat} {u v : List UInt8} {c : Char} {cs : List Char}
  {s : String}

/-! Down from a node. -/

theorem follow?_of_completes (h : t.Completes u k) : (t.follow? u).isSome := by
  obtain ⟨i, hi, -⟩ := h
  rw [hi]
  rfl

/-- The path to a complete node goes no further. -/
theorem eq_nil_of_completes (hs : t.Shaped) (h : t.Completes u k)
    (hv : (t.follow? (u ++ v)).isSome) : v = [] := by
  obtain ⟨i, hi, hk⟩ := h
  cases v with
  | nil => rfl
  | cons c v =>
    have hnext := follow?_prefix hv (show u ++ [c] <+: u ++ c :: v from ⟨v, by simp⟩)
    rw [follow?_snoc hi, Node.child?, hs.closed hk] at hnext
    cases hnext

/-- From the end of path `u` on, `n` of the characters `cs` lead to a complete node. -/
def Ahead (t : Trie) (u : List UInt8) (cs : List Char) (n : Nat) : Prop :=
  ∃ v k, v.map some <+: cs.map Alphabet.code? ∧ t.Completes (u ++ v) k ∧ v.length = n

theorem Ahead.follow? (h : t.Ahead u cs n) : (t.follow? u).isSome := by
  obtain ⟨v, k, -, hk, -⟩ := h
  exact follow?_prefix (follow?_of_completes hk) (List.prefix_append u v)

theorem ahead_of_completes (hs : t.Shaped) (h : t.Completes u k) : t.Ahead u cs n ↔ n = 0 := by
  constructor
  · rintro ⟨v, l, -, hl, rfl⟩
    rw [eq_nil_of_completes hs h (follow?_of_completes hl), List.length_nil]
  · rintro rfl
    exact ⟨[], k, List.nil_prefix, by rwa [List.append_nil], rfl⟩

theorem not_ahead_nil (h : ∀ k, ¬ t.Completes u k) : ¬ t.Ahead u [] n := by
  rintro ⟨v, k, hv, hk, -⟩
  obtain rfl := List.map_eq_nil_iff.mp (List.prefix_nil.mp hv)
  rw [List.append_nil] at hk
  exact h k hk

theorem ahead_cons (h : ∀ k, ¬ t.Completes u k) : t.Ahead u (c :: cs) n ↔
    ∃ code, Alphabet.code? c = some code ∧ ∃ m, t.Ahead (u ++ [code]) cs m ∧ n = m + 1 := by
  constructor
  · rintro ⟨v, k, hv, hk, rfl⟩
    cases v with
    | nil =>
      rw [List.append_nil] at hk
      exact (h k hk).elim
    | cons code w =>
      obtain ⟨hcode, hw⟩ := List.cons_prefix_cons.mp hv
      exact ⟨code, hcode.symm, w.length, ⟨w, k, hw, by simpa using hk, rfl⟩, rfl⟩
  · rintro ⟨code, hcode, m, ⟨w, k, hw, hk, rfl⟩, rfl⟩
    exact ⟨code :: w, k, List.cons_prefix_cons.mpr ⟨hcode.symm, hw⟩, by simpa using hk, rfl⟩

theorem not_completes_of_pair (hu : t.follow? u = some i)
    (hn : (t.node i).pair = none) : ∀ k, ¬ t.Completes u k := by
  rintro k ⟨j, hj, hk⟩
  rw [hu] at hj
  cases hj
  rw [hn] at hk
  cases hk

/-- The count stops at the first complete node, and there is no other further down. -/
theorem suffixFrom_eq_some (hs : t.Shaped) (hu : t.follow? u = some i)
    (hn : (t.node i).pair = none) :
    t.suffixFrom i depth cs = some d ↔ ∃ n, t.Ahead u cs n ∧ d = depth + n := by
  have hno := not_completes_of_pair hu hn
  induction cs generalizing u i depth with
  | nil => simp [suffixFrom, not_ahead_nil hno]
  | cons c cs ih =>
    simp only [suffixFrom, ahead_cons hno]
    cases hcode : Alphabet.code? c with
    | none => simp
    | some code =>
      simp only [Option.bind_some, Option.some.injEq, exists_eq_left']
      cases hchild : (t.node i).child? code with
      | none =>
        constructor
        · intro h
          cases h
        · rintro ⟨n, ⟨m, hm, -⟩, -⟩
          have hsome := hm.follow?
          rw [follow?_snoc hu, hchild] at hsome
          cases hsome
      | some j =>
        have hj : t.follow? (u ++ [code]) = some j := (follow?_snoc hu).trans hchild
        by_cases hjn : (t.node j).isComplete = true
        · obtain ⟨k, hk⟩ := Option.isSome_iff_exists.mp hjn
          have hcompletes : t.Completes (u ++ [code]) k := ⟨j, hj, hk⟩
          simp [hjn, ahead_of_completes hs hcompletes, eq_comm]
        · have hpair := pair_eq_none_of_not_complete hjn
          simp only [if_neg hjn, ih hj hpair (not_completes_of_pair hj hpair)]
          constructor
          · rintro ⟨m, hm, rfl⟩
            exact ⟨m + 1, ⟨m, hm, rfl⟩, by omega⟩
          · rintro ⟨_, ⟨m, hm, rfl⟩, rfl⟩
            exact ⟨m, hm, by omega⟩

/-! Stored typos. -/

theorem Sound.completes_iff (hs : t.Sound) : (∃ k, t.Completes u k) ↔
    ∃ q ∈ t.pairs, keys? q.typo = some u.reverse := by
  constructor
  · rintro ⟨k, hk⟩
    obtain ⟨q, hq, hu⟩ := hs.mem_of_completes hk
    exact ⟨q, hq, codesOf_eq_ok.mp hu⟩
  · rintro ⟨q, hq, hu⟩
    obtain ⟨v, k, hv, hk⟩ := hs.completes_of_mem hq
    rw [codesOf_eq_ok.mpr hu] at hv
    cases hv
    exact ⟨k, hk⟩

/-- A text ends in a typo if and only if the codes of the typo, last first, are met first. -/
theorem prefix_map_iff {typo : String} (h : keys? typo = some u.reverse) :
    u.map some <+: s.toList.reverse.map Alphabet.code? ↔ typo.toList <:+ s.toList := by
  have hcodes := keys?_eq_some.mp h
  rw [Alphabet.suffix_iff_map_code? hcodes, hcodes, ← List.reverse_prefix, List.map_reverse,
    List.map_reverse, List.reverse_reverse]

theorem length_of_keys? {ks : List UInt8} (h : keys? s = some ks) : s.length = ks.length := by
  have hlength := congrArg List.length (keys?_eq_some.mp h)
  rwa [List.length_map, List.length_map, String.length_toList] at hlength

/-- No typo is complete at the root, since none is empty. -/
theorem Sound.pair_root (hs : t.Sound) : t.root.pair = none := by
  refine Option.eq_none_iff_forall_ne_some.mpr fun k hk => ?_
  obtain ⟨q, hq, hkeys⟩ := (hs.completes_iff (u := [])).mp ⟨k, 0, rfl, hk⟩
  have hlength := length_of_keys? hkeys
  exact (Pair.typeable_iff.mp (hs.typeable q hq)).1 (String.length_eq_zero_iff.mp hlength)

/-- The length found is that of the stored typo that the text ends in. -/
theorem Sound.suffixLength?_eq_some (hs : t.Sound) : t.suffixLength? s = some d ↔
    ∃ q ∈ t.pairs, q.typo.toList <:+ s.toList ∧ q.typo.length = d := by
  rw [suffixLength?, suffixFrom_eq_some hs.toShaped (u := []) rfl hs.pair_root]
  constructor
  · rintro ⟨_, ⟨v, k, hv, hk, rfl⟩, rfl⟩
    obtain ⟨q, hq, hkeys⟩ := hs.completes_iff.mp ⟨k, hk⟩
    rw [List.nil_append] at hkeys
    refine ⟨q, hq, (prefix_map_iff hkeys).mp hv, ?_⟩
    rw [length_of_keys? hkeys, List.length_reverse, Nat.zero_add]
  · rintro ⟨q, hq, hsuffix, rfl⟩
    obtain ⟨ks, hks⟩ := Option.isSome_iff_exists.mp (hs.typeable q hq).2
    have hkeys : keys? q.typo = some ks.reverse.reverse := by rw [List.reverse_reverse, hks]
    obtain ⟨k, hk⟩ := hs.completes_iff.mpr ⟨q, hq, hkeys⟩
    refine ⟨_, ⟨ks.reverse, k, (prefix_map_iff hkeys).mpr hsuffix, hk, rfl⟩, ?_⟩
    rw [length_of_keys? hks, List.length_reverse, Nat.zero_add]

/-- Exactly the ways to stored typos can be followed. -/
theorem Sound.isSome_follow? (hs : t.Sound) : (t.follow? u).isSome ↔
    u = [] ∨ ∃ q ∈ t.pairs, ∃ keys, keys? q.typo = some keys ∧ u <+: keys.reverse := by
  constructor
  · intro h
    refine (hs.needed h).imp_right ?_
    rintro ⟨v, k, hk⟩
    obtain ⟨q, hq, hkeys⟩ := hs.completes_iff.mp ⟨k, hk⟩
    exact ⟨q, hq, _, hkeys, by rw [List.reverse_reverse]; exact List.prefix_append u v⟩
  · rintro (rfl | ⟨q, hq, keys, hkeys, hu⟩)
    · rfl
    · obtain ⟨k, hk⟩ := hs.completes_iff.mpr ⟨q, hq, by rw [List.reverse_reverse, hkeys]⟩
      exact follow?_prefix (follow?_of_completes hk) hu

/-- Under a text there is the pair with this typo, if one is stored. A text ends in at most one
stored typo, and its length is found, whatever stands before it. Codes lead to a node if they begin
the way to a stored typo, last character first. The edges of a node ascend, so that halving them
finds the child. -/
theorem lookup_exact (h : t.Built) :
    (∀ s q, t.get? s = some q ↔ q ∈ t.pairs ∧ q.typo = s) ∧
    (∀ s d, t.suffixLength? s = some d ↔
      ∃ q ∈ t.pairs, q.typo.toList <:+ s.toList ∧ q.typo.length = d) ∧
    (∀ s : String, ∀ q ∈ t.pairs, ∀ r ∈ t.pairs, q.typo.toList <:+ s.toList →
      r.typo.toList <:+ s.toList → q.typo.length = r.typo.length) ∧
    (∀ s, t.suffixLength? s = none ↔ ∀ q ∈ t.pairs, ¬ q.typo.toList <:+ s.toList) ∧
    (∀ codes, (t.follow? codes).isSome ↔ codes = [] ∨
      ∃ q ∈ t.pairs, ∃ keys, keys? q.typo = some keys ∧ codes <+: keys.reverse) ∧
    ∀ i, Ascending (t.node i).edges ∧
      ∀ code, Node.bisect code (t.node i).edges = (t.node i).child? code := by
  have hs := h.sound
  refine ⟨fun s q => hs.get?_eq_some, fun s d => hs.suffixLength?_eq_some, ?_, fun s => ?_,
    fun codes => hs.isSome_follow?, fun i => ⟨hs.ascending i, fun code => ?_⟩⟩
  · intro s q hq r hr hqs hrs
    have hlength := hs.suffixLength?_eq_some.mpr ⟨q, hq, hqs, rfl⟩
    rw [hs.suffixLength?_eq_some.mpr ⟨r, hr, hrs, rfl⟩] at hlength
    exact (Option.some.inj hlength).symm
  · rw [Option.eq_none_iff_forall_ne_some]
    constructor
    · intro hnone q hq hsuffix
      exact hnone _ (hs.suffixLength?_eq_some.mpr ⟨q, hq, hsuffix, rfl⟩)
    · intro hno d hd
      obtain ⟨q, hq, hsuffix, -⟩ := hs.suffixLength?_eq_some.mp hd
      exact hno q hq hsuffix
  · rw [Node.bisect_eq_lookup (hs.ascending i), Node.child?]

/-- `whte` was refused, so it is not found, though its ending is. A character without a code counts
only if it comes after the typo. -/
theorem lookup_exact_hte : ∃ t : Trie, t.Built ∧
    t.pairs = #[⟨"hte", "the"⟩, ⟨"ate", "eat"⟩] ∧ t.get? "hte" = some ⟨"hte", "the"⟩ ∧
    t.get? "whte" ≠ some ⟨"whte", "white"⟩ ∧ t.suffixLength? "3 whte" = some 3 ∧
    t.suffixLength? "hte3" = none ∧ (t.follow? [0x08, 0x17]).isSome := by
  have h : (((empty.insert ⟨"hte", "the"⟩).1.insert ⟨"whte", "white"⟩).1.insert
    ⟨"ate", "eat"⟩).1.Built := .insert _ (.insert _ (.insert _ .empty))
  obtain ⟨hget, hlength, -, hnone, hfollow, -⟩ := lookup_exact h
  have hpairs : (((empty.insert ⟨"hte", "the"⟩).1.insert ⟨"whte", "white"⟩).1.insert
    ⟨"ate", "eat"⟩).1.pairs = #[⟨"hte", "the"⟩, ⟨"ate", "eat"⟩] := by decide +kernel
  simp only [hpairs] at hget hlength hnone hfollow
  refine ⟨_, h, hpairs, (hget _ _).mpr ⟨by simp, rfl⟩, fun hwhte => ?_,
    (hlength _ _).mpr ⟨⟨"hte", "the"⟩, by simp, by decide, rfl⟩, (hnone _).mpr (by decide),
    (hfollow _).mpr (Or.inr ⟨⟨"hte", "the"⟩, by simp, [0x0B, 0x17, 0x08], by decide, by decide⟩)⟩
  have hmem := ((hget _ _).mp hwhte).1
  simp at hmem

end Emend.Trie
