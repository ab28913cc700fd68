import Xv6.Fs.Dir

/-!
# Directories as maps

A name is the text up to its NUL, if it has one: `namecmp` compares texts and `strncpy` keeps them.
A directory is a partial map from texts to inode numbers, `n.dict`.

* `n.Names k text i` says that entry `k` is in use for `i` under the text, and `Node.Unique` that no
  text is used twice.
* `dict_of_findName` and `findName_eq_none_iff_dict` connect the map to the search of `dirlookup`.
* An entry written into a free slot adds one text to the map, and an entry that is cleared takes one
  away (`Unique.putDirent_freeSlot`, `Unique.putDirent_zero`).

The first matching entry is what the code finds, so that `dict` is defined as a search and makes
sense for directories with repeated names as well; that those do not come up is part of the
directory tree of `Xv6.Fs.Tree`.
-/

namespace Xv6

open Lib

/-! ## Texts -/

def Name.text (name : Name) : List UInt8 := ((List.range DIRSIZ).map name.get).takeWhile (· ≠ 0)

lemma strncmp_eq_zero_iff_takeWhile {n : ℕ} {p q : ℕ → UInt8} : strncmp n p q = 0 ↔
    ((List.range n).map p).takeWhile (· ≠ 0) = ((List.range n).map q).takeWhile (· ≠ 0) := by
  induction n generalizing p q with
  | zero => simp [strncmp]
  | succ n ih =>
    rw [strncmp, List.range_succ_eq_map, List.map_cons, List.map_cons, List.map_map, List.map_map,
      List.takeWhile_cons, List.takeWhile_cons]
    by_cases hp : p 0 = 0
    · by_cases hq : q 0 = 0
      · simp [hp, hq]
      · have hne : (q 0).toNat ≠ 0 := fun h => hq (UInt8.toNat_inj.mp h)
        simp [hp, hq, hne]
    · by_cases hpq : p 0 = q 0
      · have hq : q 0 ≠ 0 := hpq ▸ hp
        rw [if_pos ⟨hp, hpq⟩, ih]
        simp only [decide_eq_true hq, if_true, List.cons_inj_right, hpq]
        rfl
      · have hne : (p 0).toNat ≠ (q 0).toNat := fun h => hpq (UInt8.toNat_inj.mp h)
        rw [if_neg fun h => hpq h.2]
        refine iff_of_false (by omega) fun h => ?_
        rw [if_pos (decide_eq_true hp)] at h
        split_ifs at h
        exact hpq (List.cons.inj h).1

/-- **`namecmp` compares texts.** -/
lemma namecmp_eq_zero_iff {a b : Name} : namecmp a b = 0 ↔ a.text = b.text :=
  strncmp_eq_zero_iff_takeWhile

@[simp] lemma text_strncpy (name : Name) : (strncpy name).text = name.text :=
  (namecmp_eq_zero_iff.mp (namecmp_strncpy name)).symm

/-! ## The map -/

/-- Entry `k` of the directory is in use and names the inode `i`. -/
def Node.Names (n : Node) (k : ℕ) (text : List UInt8) (i : ℕ) : Prop :=
  i ≠ 0 ∧ ∃ name : Name, n.entries[k]? = some ⟨i, name⟩ ∧ name.text = text

/-- No two entries in use have the same name. -/
def Node.Unique (n : Node) : Prop := ∀ {j k text i i'}, n.Names j text i → n.Names k text i' → j = k

/-- The directory as a map from names to inode numbers. -/
def Node.dict (n : Node) (text : List UInt8) : Option ℕ :=
  (n.entries.find? fun e => e.inum ≠ 0 ∧ e.name.text = text).map Dirent.inum

section

variable {n : Node} {k i : ℕ} {e : Dirent} {name : Name} {text : List UInt8}

namespace Node

lemma names_of_matches (he : n.entries[k]? = some e) (hm : e.Matches name) :
    n.Names k name.text e.inum :=
  ⟨hm.1, e.name, he, (namecmp_eq_zero_iff.mp hm.2).symm⟩

lemma Names.lt (h : n.Names k text i) : k < n.entries.length := by
  obtain ⟨-, name, he, -⟩ := h
  exact (List.getElem?_eq_some_iff.mp he).1

lemma exists_names (h : n.dict text = some i) : ∃ k, n.Names k text i := by
  obtain ⟨e, he, rfl⟩ := Option.map_eq_some_iff.mp h
  obtain ⟨hp, k, hk, rfl, -⟩ := List.find?_eq_some_iff_getElem.mp he
  obtain ⟨hz, ht⟩ := of_decide_eq_true hp
  exact ⟨k, hz, n.entries[k].name, List.getElem?_eq_getElem hk, ht⟩

lemma dict_eq_none_iff : n.dict text = none ↔ ∀ k i, ¬ n.Names k text i := by
  constructor
  · rintro h k i ⟨hz, name, he, ht⟩
    have hnone := List.find?_eq_none.mp (Option.map_eq_none_iff.mp h) _ (List.mem_of_getElem? he)
    exact hnone (decide_eq_true ⟨hz, ht⟩)
  · intro h
    cases hd : n.dict text with
    | none => rfl
    | some i =>
      obtain ⟨k, hk⟩ := exists_names hd
      exact absurd hk (h k i)

lemma Unique.dict_eq_some_iff (h : n.Unique) : n.dict text = some i ↔ ∃ k, n.Names k text i := by
  refine ⟨exists_names, fun ⟨k, hk⟩ => ?_⟩
  cases hd : n.dict text with
  | none => exact absurd hk (dict_eq_none_iff.mp hd k i)
  | some i' =>
    obtain ⟨k', hk'⟩ := exists_names hd
    obtain rfl := h hk hk'
    obtain ⟨-, name, he, -⟩ := hk
    obtain ⟨-, name', he', -⟩ := hk'
    exact congrArg some (congrArg Dirent.inum (Option.some.inj (he'.symm.trans he)))

lemma Unique.dict_of_matches (hu : n.Unique) (he : e ∈ n.entries) (hm : e.Matches name) :
    n.dict name.text = some e.inum := by
  obtain ⟨k, hk, rfl⟩ := List.mem_iff_getElem.mp he
  exact hu.dict_eq_some_iff.mpr ⟨k, names_of_matches (List.getElem?_eq_getElem hk) hm⟩

lemma dict_of_findName (h : findName name n.entries = some k) (he : n.entries[k]? = some e)
    (hu : n.Unique) : n.dict name.text = some e.inum := by
  obtain ⟨e', he', hm⟩ := findName_eq_some h
  obtain rfl := Option.some.inj (he.symm.trans he')
  exact hu.dict_of_matches (List.mem_of_getElem? he) hm

lemma findName_eq_none_iff_dict : findName name n.entries = none ↔ n.dict name.text = none := by
  rw [findName_eq_none_iff, dict_eq_none_iff]
  constructor
  · rintro h k i ⟨hz, name', he, ht⟩
    exact h _ (List.mem_of_getElem? he) ⟨hz, namecmp_eq_zero_iff.mpr ht.symm⟩
  · intro h e he hm
    obtain ⟨k, hk, rfl⟩ := List.mem_iff_getElem.mp he
    exact h k _ (names_of_matches (List.getElem?_eq_getElem hk) hm)

/-! ## Changes of an entry -/

lemma names_putDirent (hd : n.IsDir) (hk : k ≤ n.entries.length) (he : e.inum < 65536) {j : ℕ} :
    (n.putDirent k e).Names j text i ↔
      if j = k then e.inum = i ∧ i ≠ 0 ∧ e.name.text = text else n.Names j text i := by
  rw [Names, entries_putDirent hd hk he, getElem?_setSlot hk]
  split_ifs with hj
  · constructor
    · rintro ⟨hz, name, hs, rfl⟩
      cases hs
      exact ⟨rfl, hz, rfl⟩
    · rintro ⟨rfl, hz, rfl⟩
      exact ⟨hz, e.name, rfl, rfl⟩
  · rfl

lemma not_names_freeSlot : ¬ n.Names (freeSlot n.entries) text i := by
  rintro ⟨hz, name, he, -⟩
  exact hz (inum_freeSlot he)

section

variable (hd : n.IsDir) (hu : n.Unique)

include hd hu

/-- **An entry in a free slot adds its name.** -/
lemma Unique.putDirent_freeSlot (hnone : n.dict name.text = none) (hi : i ≠ 0) (hi' : i < 65536) :
    (n.putDirent (freeSlot n.entries) ⟨i, strncpy name⟩).Unique ∧
      (n.putDirent (freeSlot n.entries) ⟨i, strncpy name⟩).dict =
        Function.update n.dict name.text (some i) := by
  -- the slot was not in use, so that no name is lost
  have hnew : ∀ {k text j}, (n.putDirent (freeSlot n.entries) ⟨i, strncpy name⟩).Names k text j ↔
      if k = freeSlot n.entries then i = j ∧ j ≠ 0 ∧ name.text = text else n.Names k text j :=
    fun {k text j} => by
      rw [names_putDirent hd freeSlot_le hi', text_strncpy]
  have huniq : (n.putDirent (freeSlot n.entries) ⟨i, strncpy name⟩).Unique := by
    intro j k text a b hj hk
    rw [hnew] at hj hk
    split_ifs at hj hk with hj' hk' hk'
    · rw [hj', hk']
    · exact absurd (hj.2.2 ▸ hk) (dict_eq_none_iff.mp hnone k b)
    · exact absurd (hk.2.2 ▸ hj) (dict_eq_none_iff.mp hnone j a)
    · exact hu hj hk
  refine ⟨huniq, funext fun text => Option.ext fun j => ?_⟩
  rw [huniq.dict_eq_some_iff]
  by_cases ht : text = name.text
  · subst ht
    rw [Function.update_self, Option.some_inj]
    constructor
    · rintro ⟨k, hk⟩
      rw [hnew] at hk
      split_ifs at hk with hk'
      · exact hk.1
      · exact absurd hk (dict_eq_none_iff.mp hnone k j)
    · rintro rfl
      exact ⟨_, hnew.mpr (by rw [if_pos rfl]; exact ⟨rfl, hi, rfl⟩)⟩
  · rw [Function.update_of_ne ht, hu.dict_eq_some_iff]
    refine exists_congr fun k => ?_
    rw [hnew]
    split_ifs with hk
    · subst hk
      exact iff_of_false (fun h => ht h.2.2.symm) not_names_freeSlot
    · exact Iff.rfl

/-- **An entry that is cleared takes its name away.** -/
lemma Unique.putDirent_zero (hk : n.Names k text i) :
    (n.putDirent k ⟨0, Bytes.zero⟩).Unique ∧
      (n.putDirent k ⟨0, Bytes.zero⟩).dict = Function.update n.dict text none := by
  have hnew : ∀ {j t a}, (n.putDirent k ⟨0, Bytes.zero⟩).Names j t a ↔ j ≠ k ∧ n.Names j t a :=
    fun {j t a} => by
      rw [names_putDirent hd hk.lt.le (by norm_num)]
      split_ifs with hj
      · exact iff_of_false (fun h => h.2.1 h.1.symm) fun h => h.1 hj
      · exact ⟨fun h => ⟨hj, h⟩, fun h => h.2⟩
  have huniq : (n.putDirent k ⟨0, Bytes.zero⟩).Unique := fun hj hj' =>
    hu (hnew.mp hj).2 (hnew.mp hj').2
  refine ⟨huniq, funext fun t => Option.ext fun j => ?_⟩
  rw [huniq.dict_eq_some_iff]
  by_cases ht : t = text
  · subst ht
    rw [Function.update_self]
    refine iff_of_false (fun ⟨a, ha⟩ => ?_) (by simp)
    exact (hnew.mp ha).1 (hu (hnew.mp ha).2 hk)
  · rw [Function.update_of_ne ht, hu.dict_eq_some_iff]
    refine exists_congr fun j' => hnew.trans ⟨fun h => h.2, fun h => ⟨?_, h⟩⟩
    rintro rfl
    obtain ⟨-, name, he, rfl⟩ := hk
    obtain ⟨-, name', he', rfl⟩ := h
    exact ht (congrArg (fun e => e.name.text) (Option.some.inj (he'.symm.trans he)))

end

/-- The length of a directory after an entry has been written into a free slot. -/
lemma IsDir.length_putDirent_freeSlot (hd : n.IsDir) :
    (n.putDirent (freeSlot n.entries) e).data.length =
      if freeSlot n.entries < n.entries.length then n.data.length
      else n.data.length + DIRENTSIZE := by
  show (overlay n.data _ e.bytes).length = _
  rw [length_overlay (hd.le_length freeSlot_le), Dirent.length_bytes, hd.length_data]
  have hle : freeSlot n.entries ≤ n.entries.length := freeSlot_le
  simp only [DIRENTSIZE]
  split_ifs <;> omega

lemma IsDir.length_putDirent_of_lt (hd : n.IsDir) (hk : k < n.entries.length) :
    (n.putDirent k e).data.length = n.data.length := by
  show (overlay n.data _ e.bytes).length = _
  rw [length_overlay (hd.le_length hk.le), Dirent.length_bytes, hd.length_data]
  simp only [DIRENTSIZE]
  omega

end Node

end

end Xv6
