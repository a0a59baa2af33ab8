import PaymentService.Python.JsonText

/-!
# Sorted keys forget the order of a `dict`

Two values with distinct keys are the same value once their keys are sorted exactly if they are the
same up to the order of their `dict`s' items, at every depth (`sortKeys_eq_iff`), so this is when
`json.dumps` gives them one text (`dumps_eq_iff`).
-/

namespace Python

namespace PyJson

/-! ## Sorting one `dict` -/

instance : Std.Total byKey := ⟨fun f g => le_total f.1 g.1⟩

instance : IsTrans (PyStr × PyJson) byKey := ⟨fun _ _ _ => le_trans⟩

theorem sort_eq_iff {fs gs : List (PyStr × PyJson)} (hf : (fs.map Prod.fst).Nodup) :
    fs.insertionSort byKey = gs.insertionSort byKey ↔ fs.length = gs.length ∧ ∀ x ∈ fs, x ∈ gs := by
  constructor
  · intro h
    have hperm : fs.Perm gs :=
      (fs.perm_insertionSort byKey).symm.trans (h ▸ gs.perm_insertionSort byKey)
    exact ⟨hperm.length_eq, fun x hx => hperm.mem_iff.1 hx⟩
  · rintro ⟨hlen, hsub⟩
    have hperm : fs.Perm gs :=
      (List.subperm_of_subset (List.Nodup.of_map _ hf) hsub).perm_of_length_le hlen.ge
    have hsorted : (fs.insertionSort byKey).Perm (gs.insertionSort byKey) :=
      (fs.perm_insertionSort byKey).trans (hperm.trans (gs.perm_insertionSort byKey).symm)
    refine hsorted.eq_of_pairwise ?_ (fs.pairwise_insertionSort byKey)
      (gs.pairwise_insertionSort byKey)
    intro x y hx hy hxy hyx
    have hx' : x ∈ fs := (List.mem_insertionSort byKey).1 hx
    have hy' : y ∈ fs := hperm.mem_iff.2 ((List.mem_insertionSort byKey).1 hy)
    exact List.inj_on_of_nodup_map hf hx' hy' (le_antisymm hxy hyx)

theorem sortFields_eq_map : ∀ fs : List (PyStr × PyJson),
    sortFields fs = fs.map fun f => (f.1, f.2.sortKeys)
  | [] => rfl
  | (k, x) :: fs => by rw [sortFields, sortFields_eq_map fs, List.map_cons]

theorem keys_sortFields (fs : List (PyStr × PyJson)) :
    (sortFields fs).map Prod.fst = fs.map Prod.fst := by
  rw [sortFields_eq_map, List.map_map]
  rfl

theorem length_sortFields (fs : List (PyStr × PyJson)) : (sortFields fs).length = fs.length := by
  rw [sortFields_eq_map, List.length_map]

theorem mem_sortFields {gs : List (PyStr × PyJson)} {k : PyStr} {x : PyJson} :
    (k, x) ∈ sortFields gs ↔ ∃ y, (k, y) ∈ gs ∧ y.sortKeys = x := by
  rw [sortFields_eq_map, List.mem_map]
  constructor
  · rintro ⟨⟨l, y⟩, hmem, heq⟩
    cases heq
    exact ⟨y, hmem, rfl⟩
  · rintro ⟨y, hmem, rfl⟩
    exact ⟨(k, y), hmem, rfl⟩

theorem keysOk_of_mem : ∀ {gs : List (PyStr × PyJson)} {k : PyStr} {y : PyJson},
    fieldsKeysOk gs → (k, y) ∈ gs → y.keysOk
  | (l, x) :: gs, k, y, hok, hmem => by
    simp only [fieldsKeysOk, Bool.and_eq_true] at hok
    rcases List.mem_cons.1 hmem with heq | hmem
    · cases heq
      exact hok.1
    · exact keysOk_of_mem hok.2 hmem

/-! ## All of a value -/

mutual

theorem sortKeys_eq_iff : ∀ {a b : PyJson}, a.keysOk → b.keysOk →
    (a.sortKeys = b.sortKeys ↔ Same a b)
  | .null, b, _, _ => by cases b <;> simp [sortKeys, Same]
  | .bool _, b, _, _ => by cases b <;> simp [sortKeys, Same]
  | .int _, b, _, _ => by cases b <;> simp [sortKeys, Same]
  | .float _, b, _, _ => by cases b <;> simp [sortKeys, Same]
  | .str _, b, _, _ => by cases b <;> simp [sortKeys, Same]
  | .arr xs, b, ha, hb => by
    rcases b with _ | _ | _ | _ | _ | ys | _ <;> try simp [sortKeys, Same]
    exact sortItems_eq_iff ha hb
  | .obj fs, b, ha, hb => by
    rcases b with _ | _ | _ | _ | _ | _ | gs <;> try simp [sortKeys, Same]
    simp only [keysOk, Bool.and_eq_true, decide_eq_true_eq] at ha hb
    rw [sort_eq_iff (by rw [keys_sortFields]; exact ha.1), length_sortFields, length_sortFields]
    exact and_congr_right fun _ => sortFields_subset_iff ha.2 hb.2

theorem sortItems_eq_iff : ∀ {xs ys : List PyJson}, itemsKeysOk xs → itemsKeysOk ys →
    (sortItems xs = sortItems ys ↔ SameItems xs ys)
  | [], [], _, _ => by simp [SameItems]
  | [], _ :: _, _, _ => by simp [sortItems, SameItems]
  | _ :: _, [], _, _ => by simp [sortItems, SameItems]
  | x :: xs, y :: ys, hx, hy => by
    simp only [itemsKeysOk, Bool.and_eq_true] at hx hy
    rw [sortItems, sortItems, List.cons.injEq, SameItems, sortKeys_eq_iff hx.1 hy.1,
      sortItems_eq_iff hx.2 hy.2]

theorem sortFields_subset_iff : ∀ {fs gs : List (PyStr × PyJson)}, fieldsKeysOk fs →
    fieldsKeysOk gs → ((∀ f ∈ sortFields fs, f ∈ sortFields gs) ↔ SameFields fs gs)
  | [], gs, _, _ => by simp [sortFields, SameFields]
  | (k, x) :: fs, gs, hf, hg => by
    simp only [fieldsKeysOk, Bool.and_eq_true] at hf
    rw [sortFields, List.forall_mem_cons, SameFields, sortFields_subset_iff hf.2 hg, mem_sortFields]
    refine and_congr_left fun _ => exists_congr fun y => and_congr_right fun hmem => ?_
    rw [← sortKeys_eq_iff hf.1 (keysOk_of_mem hg hmem), eq_comm]

end

/-- The item of a key is the only one it can be matched with. -/
theorem exists_field_iff {gs : List (PyStr × PyJson)} (hg : (gs.map Prod.fst).Nodup) {k : PyStr}
    {x y : PyJson} (h : (k, y) ∈ gs) : (∃ z, (k, z) ∈ gs ∧ Same x z) ↔ Same x y := by
  constructor
  · rintro ⟨z, hz, hsame⟩
    have heq : (k, z) = (k, y) := List.inj_on_of_nodup_map hg hz h rfl
    cases heq
    exact hsame
  · exact fun hsame => ⟨y, h, hsame⟩

/-! ## What sorting leaves alone -/

section

variable (p : PyStr → Bool) (q : BitVec 64 → Bool)

theorem fieldsAll_iff : ∀ {fs : List (PyStr × PyJson)},
    fieldsAll p q fs = true ↔ ∀ f ∈ fs, p f.1 = true ∧ f.2.all p q = true
  | [] => by simp [fieldsAll]
  | (k, x) :: fs => by
    rw [fieldsAll, Bool.and_eq_true, Bool.and_eq_true, fieldsAll_iff, List.forall_mem_cons]

theorem fieldsAll_sort (fs : List (PyStr × PyJson)) :
    fieldsAll p q (fs.insertionSort byKey) = fieldsAll p q fs := by
  rw [Bool.eq_iff_iff, fieldsAll_iff, fieldsAll_iff]
  simp only [List.mem_insertionSort]

mutual

theorem all_sortKeys : ∀ j : PyJson, j.sortKeys.all p q = j.all p q
  | .null | .bool _ | .int _ | .float _ | .str _ => rfl
  | .arr xs => itemsAll_sortItems xs
  | .obj fs => by rw [sortKeys, all, fieldsAll_sort, fieldsAll_sortFields fs, all]

theorem itemsAll_sortItems : ∀ xs : List PyJson, itemsAll p q (sortItems xs) = itemsAll p q xs
  | [] => rfl
  | x :: xs => by rw [sortItems, itemsAll, itemsAll, all_sortKeys x, itemsAll_sortItems xs]

theorem fieldsAll_sortFields : ∀ fs : List (PyStr × PyJson),
    fieldsAll p q (sortFields fs) = fieldsAll p q fs
  | [] => rfl
  | (k, x) :: fs => by
    rw [sortFields, fieldsAll, fieldsAll, all_sortKeys x, fieldsAll_sortFields fs]

end

end

section

variable {p p' : PyStr → Bool} {q q' : BitVec 64 → Bool}

mutual

theorem all_mono (hp : ∀ s, p s = true → p' s = true) (hq : ∀ b, q b = true → q' b = true) :
    ∀ {j : PyJson}, j.all p q = true → j.all p' q' = true
  | .null, _ | .bool _, _ | .int _, _ => rfl
  | .float b, h => hq b h
  | .str s, h => hp s h
  | .arr _, h => itemsAll_mono hp hq h
  | .obj _, h => fieldsAll_mono hp hq h

theorem itemsAll_mono (hp : ∀ s, p s = true → p' s = true)
    (hq : ∀ b, q b = true → q' b = true) :
    ∀ {xs : List PyJson}, itemsAll p q xs = true → itemsAll p' q' xs = true
  | [], _ => rfl
  | x :: xs, h => by
    simp only [itemsAll, Bool.and_eq_true] at h ⊢
    exact ⟨all_mono hp hq h.1, itemsAll_mono hp hq h.2⟩

theorem fieldsAll_mono (hp : ∀ s, p s = true → p' s = true)
    (hq : ∀ b, q b = true → q' b = true) :
    ∀ {fs : List (PyStr × PyJson)}, fieldsAll p q fs = true → fieldsAll p' q' fs = true
  | [], _ => rfl
  | (k, x) :: fs, h => by
    simp only [fieldsAll, Bool.and_eq_true] at h ⊢
    exact ⟨⟨hp k h.1.1, all_mono hp hq h.1.2⟩, fieldsAll_mono hp hq h.2⟩

end

end

section

variable {scalar : ℕ}

theorem fieldsDepth_le_iff {n : ℕ} : ∀ {fs : List (PyStr × PyJson)},
    fieldsDepth scalar fs ≤ n ↔ ∀ f ∈ fs, f.2.depth scalar ≤ n
  | [] => by simp [fieldsDepth]
  | (k, x) :: fs => by
    rw [fieldsDepth, max_le_iff, fieldsDepth_le_iff, List.forall_mem_cons]

theorem fieldsDepth_sort (fs : List (PyStr × PyJson)) :
    fieldsDepth scalar (fs.insertionSort byKey) = fieldsDepth scalar fs := by
  refine eq_of_forall_ge_iff fun n => ?_
  simp only [fieldsDepth_le_iff, List.mem_insertionSort]

mutual

theorem depth_sortKeys : ∀ j : PyJson, j.sortKeys.depth scalar = j.depth scalar
  | .null | .bool _ | .int _ | .float _ | .str _ => rfl
  | .arr xs => congrArg (· + 1) (itemsDepth_sortItems xs)
  | .obj fs => by
    rw [sortKeys, depth, fieldsDepth_sort, fieldsDepth_sortFields fs, depth]

theorem itemsDepth_sortItems : ∀ xs : List PyJson,
    itemsDepth scalar (sortItems xs) = itemsDepth scalar xs
  | [] => rfl
  | x :: xs => by
    rw [sortItems, itemsDepth, itemsDepth, depth_sortKeys x, itemsDepth_sortItems xs]

theorem fieldsDepth_sortFields : ∀ fs : List (PyStr × PyJson),
    fieldsDepth scalar (sortFields fs) = fieldsDepth scalar fs
  | [] => rfl
  | (k, x) :: fs => by
    rw [sortFields, fieldsDepth, fieldsDepth, depth_sortKeys x, fieldsDepth_sortFields fs]

end

end

/-! ## What the same values share -/

section

variable {a b : PyJson}

theorem Same.all_eq (h : Same a b) (ha : a.keysOk) (hb : b.keysOk) (p : PyStr → Bool)
    (q : BitVec 64 → Bool) : a.all p q = b.all p q := by
  rw [← all_sortKeys, (sortKeys_eq_iff ha hb).2 h, all_sortKeys]

theorem Same.depth_eq (h : Same a b) (ha : a.keysOk) (hb : b.keysOk) (scalar : ℕ) :
    a.depth scalar = b.depth scalar := by
  rw [← depth_sortKeys, (sortKeys_eq_iff ha hb).2 h, depth_sortKeys]

end

/-! ## `json.dumps` -/

/-- Two values have one text if and only if they are the same. -/
theorem dumps_eq_iff {floatRepr : BitVec 64 → List Char} (hr : IsFloatRepr floatRepr)
    {a b : PyJson} (ha : Finite a) (hb : Finite b) (hka : a.keysOk) (hkb : b.keysOk) :
    dumps floatRepr a = dumps floatRepr b ↔ Same a b := by
  rw [← sortKeys_eq_iff hka hkb]
  constructor
  · intro h
    refine (render_split hr ((all_sortKeys _ _ a).trans ha) ((all_sortKeys _ _ b).trans hb)
      (s := []) (t := []) ?_ ?_ (congrArg (· ++ []) h)).1 <;> rintro c ⟨⟩
  · intro h
    rw [dumps, h, dumps]

theorem isText_dumps (floatRepr : BitVec 64 → List Char) (j : PyJson) :
    PyStr.isText (dumps floatRepr j) = j.all PyStr.isText fun _ => true := by
  rw [dumps, isText_render, all_sortKeys]

end PyJson

end Python
