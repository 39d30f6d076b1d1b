import DirectoryNotes.FileTree.Visit
import DirectoryNotes.FileTree.Write
import DirectoryNotes.Proofs.Path.Below

/-!
# The entries of a file tree

How the tree as a map answers after a change, and the trees that a file system can be in:

* `entryAt?_put` and `entryAt?_erase`: a change at one location shows there and nowhere else;
* `mem_children_iff`: the names in a directory are those at which an entry stands;
* `FileTree.WellFormed`: names are names, every entry stands in a directory, and no location is
  taken twice; `WellFormed.put_file` and `WellFormed.erase` keep it;
* `FileTree.LinkFreeBelow`: no link at a location or below it.
-/

namespace DirectoryNotes

/-- A name that an entry may have. -/
structure IsEntryName (name : String) : Prop extends IsPlainName name where
  no_null : '\x00' ∉ name.toList
  size_le : name.utf8ByteSize ≤ FileTree.nameLimit

instance (name : String) : Decidable (IsEntryName name) :=
  decidable_of_iff
    (IsPlainName name ∧ '\x00' ∉ name.toList ∧ name.utf8ByteSize ≤ FileTree.nameLimit)
    ⟨fun ⟨h1, h2, h3⟩ => ⟨h1, h2, h3⟩, fun ⟨h1, h2, h3⟩ => ⟨h1, h2, h3⟩⟩

namespace FileTree

variable {t t' : FileTree} {l m : Location} {e : Entry} {name : String}

/-! ## Changes -/

@[simp] lemma entryAt?_nil (t : FileTree) : t.entryAt? [] = some .directory := rfl

lemma entryAt?_of_ne_nil (h : l ≠ []) : t.entryAt? l = t.entries.lookup l := by
  rw [entryAt?, if_neg h]

lemma lookup_cons_eq (k : Location) (old : Entry) (rest : List (Location × Entry)) :
    List.lookup m ((k, old) :: rest) = if m = k then some old else rest.lookup m := by
  by_cases h : m = k
  · simp [h]
  · rw [List.lookup_cons, beq_false_of_ne h, if_neg h]

lemma lookup_set (entries : List (Location × Entry)) :
    (put.set l e entries).lookup m = if m = l then some e else entries.lookup m := by
  induction entries with
  | nil => simp only [put.set, lookup_cons_eq]
  | cons x rest ih =>
    obtain ⟨k, old⟩ := x
    by_cases hk : k = l
    · subst hk
      simp only [put.set, if_true, lookup_cons_eq]
      split <;> rfl
    · simp only [put.set, if_neg hk, lookup_cons_eq, ih]
      by_cases h : m = k
      · simp [h, hk]
      · simp [h]

/-- What is put at a location stands there, and everything else stands where it stood. -/
lemma entryAt?_put (hl : l ≠ []) :
    (t.put l e).entryAt? m = if m = l then some e else t.entryAt? m := by
  by_cases hm : m = []
  · subst hm
    simp [Ne.symm hl]
  · rw [entryAt?_of_ne_nil hm, entryAt?_of_ne_nil hm]
    exact lookup_set t.entries

lemma lookup_filter_ne (entries : List (Location × Entry)) :
    (entries.filter (·.1 ≠ l)).lookup m = if m = l then none else entries.lookup m := by
  induction entries with
  | nil => simp
  | cons x rest ih =>
    obtain ⟨k, old⟩ := x
    by_cases hk : k = l
    · subst hk
      rw [List.filter_cons_of_neg (by simp), ih, lookup_cons_eq]
      split <;> rfl
    · rw [List.filter_cons_of_pos (by simpa using hk), lookup_cons_eq, lookup_cons_eq, ih]
      by_cases h : m = k
      · simp [h, hk]
      · simp [h]

/-- What is taken away from a location stands there no more, and everything else still stands. -/
lemma entryAt?_erase (hl : l ≠ []) :
    (t.erase l).entryAt? m = if m = l then none else t.entryAt? m := by
  by_cases hm : m = []
  · subst hm
    simp [Ne.symm hl]
  · rw [entryAt?_of_ne_nil hm, entryAt?_of_ne_nil hm]
    exact lookup_filter_ne t.entries

/-! ## Names in a directory -/

lemma dropLast_eq_and_getLast?_eq_iff :
    m.dropLast = l ∧ m.getLast? = some name ↔ m = l ++ [name] := by
  constructor
  · rintro ⟨rfl, hlast⟩
    obtain ⟨front, rfl⟩ := List.getLast?_eq_some_iff.mp hlast
    simp
  · rintro rfl
    simp

/-- Locations that end in different names differ. -/
lemma concat_ne_concat {other : String} (h : name ≠ other) (l m : Location) :
    l ++ [name] ≠ m ++ [other] :=
  fun heq => h (List.singleton_inj.mp (List.append_inj' heq rfl).2)

/-- The names in a directory are those at which something stands. -/
lemma mem_children_iff : name ∈ t.children l ↔ (t.entryAt? (l ++ [name])).isSome := by
  rw [entryAt?_of_ne_nil (by simp), List.lookup_isSome_iff, children, List.mem_filterMap]
  constructor
  · rintro ⟨⟨k, old⟩, hmem, heq⟩
    obtain ⟨hk, hlast⟩ := Option.ite_none_right_eq_some.mp heq
    exact ⟨(k, old), hmem, by simpa using (dropLast_eq_and_getLast?_eq_iff.mp ⟨hk, hlast⟩).symm⟩
  · rintro ⟨⟨k, old⟩, hmem, heq⟩
    have hkl : l ++ [name] = k := by simpa using heq
    exact ⟨(k, old), hmem, by simp [← hkl]⟩

/-- At a name that no location ends in nothing stands. -/
lemma entryAt?_concat_eq_none (h : ∀ x ∈ t.entries, x.1.getLast? ≠ some name) (l : Location) :
    t.entryAt? (l ++ [name]) = none := by
  cases he : t.entryAt? (l ++ [name]) with
  | none => rfl
  | some e => exact absurd (by simp) (h _ (mem_of_entryAt? (by simp) he))

/-- Where no location is taken twice, an entry of the tree stands at its location. -/
lemma entryAt?_of_mem (hnodup : (t.entries.map (·.1)).Nodup) (hl : l ≠ []) (h : (l, e) ∈ t.entries) :
    t.entryAt? l = some e := by
  rw [entryAt?_of_ne_nil hl]
  generalize t.entries = entries at hnodup h
  induction entries with
  | nil => cases h
  | cons x rest ih =>
    obtain ⟨m, old⟩ := x
    rw [List.map_cons, List.nodup_cons] at hnodup
    rw [lookup_cons_eq]
    rcases List.mem_cons.mp h with heq | hmem
    · obtain ⟨rfl, rfl⟩ := Prod.mk.inj heq
      rw [if_pos rfl]
    · have hne : l ≠ m := by
        rintro rfl
        exact hnodup.1 (List.mem_map.mpr ⟨_, hmem, rfl⟩)
      rw [if_neg hne]
      exact ih hnodup.2 hmem

/-! ## Well-formed trees -/

/-- The trees that a file system can be in. -/
structure WellFormed (t : FileTree) : Prop where
  /-- No location is taken twice. -/
  nodup : (t.entries.map (·.1)).Nodup
  /-- Locations are made of names. -/
  names : ∀ x ∈ t.entries, ∀ name ∈ x.1, IsEntryName name
  /-- Every entry stands in a directory. -/
  parents : ∀ x ∈ t.entries, (t.entryAt? x.1.dropLast).any Entry.isDirectory = true

instance (t : FileTree) : Decidable t.WellFormed :=
  decidable_of_iff
    ((t.entries.map (·.1)).Nodup ∧ (∀ x ∈ t.entries, ∀ name ∈ x.1, IsEntryName name) ∧
      ∀ x ∈ t.entries, (t.entryAt? x.1.dropLast).any Entry.isDirectory = true)
    ⟨fun ⟨h1, h2, h3⟩ => ⟨h1, h2, h3⟩, fun ⟨h1, h2, h3⟩ => ⟨h1, h2, h3⟩⟩

lemma any_isDirectory_iff {o : Option Entry} :
    o.any Entry.isDirectory = true ↔ o = some .directory := by
  cases o with
  | none => simp
  | some e => cases e <;> simp [Entry.isDirectory]

/-- The names on the way to an entry are names. -/
lemma WellFormed.isEntryName (h : t.WellFormed) (he : t.entryAt? l = some e) :
    ∀ n ∈ l, IsEntryName n := by
  by_cases hl : l = []
  · simp [hl]
  · exact h.names _ (mem_of_entryAt? hl he)

lemma WellFormed.parent (h : t.WellFormed) (he : t.entryAt? (l ++ [name]) = some e) :
    t.entryAt? l = some .directory := by
  have hparent := h.parents _ (mem_of_entryAt? (by simp) he)
  rw [List.dropLast_concat] at hparent
  exact any_isDirectory_iff.mp hparent

/-- Above an entry there are directories all the way up. -/
lemma WellFormed.above (h : t.WellFormed) {more : Location} (hmore : more ≠ [])
    (he : t.entryAt? (l ++ more) = some e) : t.entryAt? l = some .directory := by
  induction more generalizing l with
  | nil => exact absurd rfl hmore
  | cons n rest ih =>
    by_cases hrest : rest = []
    · exact h.parent (by simpa [hrest] using he)
    · exact h.parent (ih hrest (by simpa using he))

lemma nodup_filterMap_of_inj {α β : Type} {f : α → Option β} {xs : List α} (hx : xs.Nodup)
    (hf : ∀ a b c, f a = some c → f b = some c → a = b) : (xs.filterMap f).Nodup := by
  rw [List.Nodup, List.pairwise_filterMap]
  refine hx.imp ?_
  intro a b hab c hc d hd hcd
  subst hcd
  exact hab (hf a b c hc hd)

lemma WellFormed.nodup_children (h : t.WellFormed) (l : Location) : (t.children l).Nodup := by
  -- two locations with the same last name in the same directory are the same
  have hmap : t.children l =
      (t.entries.map (·.1)).filterMap fun m => if m.dropLast = l then m.getLast? else none := by
    rw [List.filterMap_map]
    rfl
  rw [hmap]
  refine nodup_filterMap_of_inj h.nodup ?_
  intro a b c ha hb
  have ha' := dropLast_eq_and_getLast?_eq_iff.mp (Option.ite_none_right_eq_some.mp ha)
  have hb' := dropLast_eq_and_getLast?_eq_iff.mp (Option.ite_none_right_eq_some.mp hb)
  rw [ha', hb']

lemma mem_entries_put {x : Location × Entry} (h : x ∈ (t.put l e).entries) :
    x.1 = l ∨ x ∈ t.entries := by
  have hset : ∀ entries : List (Location × Entry), x ∈ put.set l e entries →
      x.1 = l ∨ x ∈ entries := by
    intro entries
    induction entries with
    | nil =>
      intro hx
      simp only [put.set, List.mem_singleton] at hx
      exact .inl (by rw [hx])
    | cons y rest ih =>
      intro hx
      obtain ⟨k, old⟩ := y
      rw [put.set] at hx
      split at hx
      · rcases List.mem_cons.mp hx with rfl | hx
        · exact .inl rfl
        · exact .inr (List.mem_cons_of_mem _ hx)
      · rcases List.mem_cons.mp hx with rfl | hx
        · exact .inr (by simp)
        · exact (ih hx).imp_right (List.mem_cons_of_mem _)
  exact hset t.entries h

lemma nodup_put (h : (t.entries.map (·.1)).Nodup) : ((t.put l e).entries.map (·.1)).Nodup := by
  -- the induction has to know which locations are taken afterwards
  have hkeys : ∀ entries : List (Location × Entry), (entries.map (·.1)).Nodup →
      ((put.set l e entries).map (·.1)).Nodup ∧
      ∀ k ∈ (put.set l e entries).map (·.1), k = l ∨ k ∈ entries.map (·.1) := by
    intro entries
    induction entries with
    | nil => simp [put.set]
    | cons y rest ih =>
      obtain ⟨k, old⟩ := y
      intro hnd
      rw [List.map_cons, List.nodup_cons] at hnd
      rw [put.set]
      split
      · next hk => exact ⟨by simpa [hk] using hnd, by simp +contextual [hk]⟩
      · next hk =>
        obtain ⟨hnodup, hmem⟩ := ih hnd.2
        refine ⟨?_, ?_⟩
        · rw [List.map_cons, List.nodup_cons]
          exact ⟨fun hin => (hmem k hin).elim hk hnd.1, hnodup⟩
        · intro j hj
          rcases List.mem_cons.mp hj with rfl | hj
          · exact .inr (by simp)
          · exact (hmem j hj).imp_right (List.mem_cons_of_mem _)
  exact (hkeys t.entries h).1

/-- A file may be put into a directory, unless a directory has its name. -/
lemma WellFormed.put_file (h : t.WellFormed) {bytes : ByteArray} {seconds : Int64}
    (hl : t.entryAt? l = some .directory) (hname : IsEntryName name)
    (hfree : t.entryAt? (l ++ [name]) ≠ some .directory) :
    (t.put (l ++ [name]) (.file bytes seconds)).WellFormed where
  nodup := nodup_put h.nodup
  names x hx n hn := by
    rcases mem_entries_put hx with hkey | hold
    · rw [hkey] at hn
      rcases List.mem_append.mp hn with hn | hn
      · exact h.isEntryName hl n hn
      · exact List.mem_singleton.mp hn ▸ hname
    · exact h.names x hold n hn
  parents x hx := by
    rw [any_isDirectory_iff, entryAt?_put (by simp)]
    rcases mem_entries_put hx with hkey | hold
    · rw [hkey, List.dropLast_concat, if_neg (by simp), hl]
    · -- the file took no directory's place, so what stood in one still does
      have hparent := any_isDirectory_iff.mp (h.parents x hold)
      have hne : x.1.dropLast ≠ l ++ [name] := fun heq => hfree (by rw [← heq, hparent])
      rw [if_neg hne, hparent]

/-- What is not a directory may be taken away. -/
lemma WellFormed.erase (h : t.WellFormed) (hl : l ≠ []) (hfree : t.entryAt? l ≠ some .directory) :
    (t.erase l).WellFormed where
  nodup := h.nodup.sublist (List.filter_sublist.map _)
  names x hx := h.names x (List.mem_filter.mp hx).1
  parents x hx := by
    have hparent := any_isDirectory_iff.mp (h.parents x (List.mem_filter.mp hx).1)
    have hne : x.1.dropLast ≠ l := fun heq => hfree (by rw [← heq, hparent])
    rw [any_isDirectory_iff, entryAt?_erase hl, if_neg hne, hparent]

/-! ## Links -/

/-- No link stands at a location or below it. -/
def LinkFreeBelow (t : FileTree) (l : Location) : Prop :=
  ∀ m target, t.entryAt? (l ++ m) ≠ some (.link target)

lemma linkFreeBelow_of_entries (h : ∀ x ∈ t.entries, x.2.isDirectory || x.2.isFile)
    (l : Location) : t.LinkFreeBelow l := by
  intro m target hlink
  have hne : l ++ m ≠ [] := by
    intro hnil
    rw [hnil, entryAt?_nil] at hlink
    cases hlink
  have hentry := h _ (mem_of_entryAt? hne hlink)
  simp [Entry.isDirectory, Entry.isFile] at hentry

end FileTree

end DirectoryNotes
