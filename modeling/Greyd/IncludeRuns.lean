import Greyd.ConfigIncludes

/-!
# Which included files are parsed

The table of the files that have been parsed has three slots. A file is recorded only behind a
look-up that finds nothing, so the table never grows: once it is full, every look-up finds some
entry and no further file is parsed.
-/
namespace Greyd

/-! ## The table of parsed files -/

/-- A table of three slots, so many of them taken. -/
structure Recorded (table : Hash Unit) (n : Nat) : Prop where
  size : table.size = configInitIncludes
  slots : table.entries = [] ∧ n = 0 ∨ table.entries.length = configInitIncludes ∧
    table.entries.countP Option.isSome = n ∧ table.numEntries = n

variable {table : Hash Unit} {n : Nat} {key : CStr}

theorem Recorded.le (h : Recorded table n) : n ≤ configInitIncludes := by
  obtain ⟨-, rfl⟩ | ⟨hlength, hcount, -⟩ := h.slots
  · exact Nat.zero_le _
  · rw [← hcount, ← hlength]
    exact List.countP_le_length

theorem Recorded.find_lt (h : Recorded table n) : hashFindEntry table key < configInitIncludes := by
  have hpos : 0 < table.size := by
    rw [h.size]
    decide
  rw [← h.size]
  exact hashFindEntry_lt hpos key

/-- The slot behind a look-up that finds nothing is free. -/
theorem Recorded.free (h : Recorded table n) (hlength : table.entries.length = configInitIncludes)
    (hget : hashGet table key = none) : table.entries[hashFindEntry table key]? = some none := by
  have hlt : hashFindEntry table key < table.entries.length := hlength ▸ h.find_lt
  unfold hashGet at hget
  rw [List.getElem?_eq_getElem hlt] at hget ⊢
  cases hslot : table.entries[hashFindEntry table key] with
  | none => rfl
  | some e =>
    rw [hslot] at hget
    cases hget

theorem Recorded.insert (h : Recorded table n) (hget : hashGet table key = none) :
    Recorded (hashInsert table key ()) (n + 1) := by
  have hput {room : Hash Unit} (hroom : Recorded room n)
      (hlength : room.entries.length = configInitIncludes)
      (hcount : room.entries.countP Option.isSome = n) (hnum : room.numEntries = n)
      (hfree : room.entries[hashFindEntry room key]? = some none) :
      Recorded (hashPut room key ()) (n + 1) := by
    have hlt : hashFindEntry room key < room.entries.length := hlength ▸ hroom.find_lt
    have hnone : room.entries[hashFindEntry room key] = none := by
      rw [List.getElem?_eq_getElem hlt] at hfree
      exact Option.some.inj hfree
    refine ⟨hroom.size, .inr ⟨?_, ?_, ?_⟩⟩
    · rw [hashPut, List.length_set, hlength]
    · rw [hashPut, List.countP_set hlt, hnone, hcount]
      rfl
    · simp only [hashPut, hfree, hnum]
  unfold hashInsert hashRoom
  obtain ⟨hnull, rfl⟩ | ⟨hlength, hcount, hnum⟩ := h.slots
  · rw [if_pos hnull, h.size]
    have hempty : Recorded ⟨configInitIncludes, 0, List.replicate configInitIncludes none⟩ 0 :=
      ⟨rfl, .inr ⟨rfl, rfl, rfl⟩⟩
    refine hput hempty rfl rfl rfl ?_
    rw [List.getElem?_replicate_of_lt hempty.find_lt]
  · have hfree := h.free hlength hget
    have hroom : n < configInitIncludes := by
      rw [← hcount, ← hlength]
      refine List.countP_lt_length_iff.mpr ⟨none, ?_, rfl⟩
      exact List.mem_of_getElem? hfree
    have hne : table.entries ≠ [] := by
      intro hnil
      rw [hnil] at hlength
      cases hlength
    rw [if_neg hne, if_neg (by rw [hnum, h.size]; omega)]
    exact hput h hlength hcount hnum hfree

/-- A look-up that finds nothing leaves room for its key. -/
theorem Recorded.room (h : Recorded table n) (hget : hashGet table key = none) :
    n < configInitIncludes := (h.insert hget).le

/-! ## A run -/

section Run

variable {files : CStr → Option (List Char)} {glob : CStr → List CStr} {root : CStr}
  {config : Config} {loaded : List CStr}

/-- The map of the parsed files. -/
def parsedMap (loaded : List CStr) (path : CStr) : Option Unit := if path ∈ loaded then some () else none

/-- No path name that the run can come to is cut off in the table. -/
def ShortPaths (files : CStr → Option (List Char)) (glob : CStr → List CStr) (root : CStr) : Prop :=
  ∀ path, Included files glob root path → path.length ≤ maxKeyLen

/-- The run can come to three files at most. -/
def FewFiles (files : CStr → Option (List Char)) (glob : CStr → List CStr) (root : CStr) : Prop :=
  ∃ few : List CStr, few.length ≤ configInitIncludes ∧ ∀ path, Included files glob root path → path ∈ few

/-- The state of a run between two files. -/
structure Loading (files : CStr → Option (List Char)) (glob : CStr → List CStr) (root : CStr)
    (config : Config) (loaded : List CStr) : Prop where
  recorded : Recorded config.processedIncludes loaded.length
  included : ∀ path, path ∈ loaded ∨ path ∈ config.includes → Included files glob root path
  holds : ShortPaths files glob root →
    Holds config.processedIncludes (parsedMap loaded) ∧ loaded.Nodup
  closed : ShortPaths files glob root → FewFiles files glob root → ∀ file ∈ loaded, ∀ paths,
    includedBy files glob file = some paths → ∀ path ∈ paths, path ∈ loaded ∨ path ∈ config.includes

/-- With few files, a look-up finds an entry for parsed files only. -/
theorem Loading.known (h : Loading files glob root config loaded) (hshort : ShortPaths files glob root)
    (hfew : FewFiles files glob root) {path : CStr} (hpath : Included files glob root path)
    (hget : hashGet config.processedIncludes path ≠ none) : path ∈ loaded := by
  obtain ⟨hholds, hnodup⟩ := h.holds hshort
  obtain ⟨few, hlength, hmem⟩ := hfew
  rcases Nat.lt_or_ge loaded.length configInitIncludes with hroom | hfull
  · have hkeys : ∀ k, parsedMap loaded k ≠ none → k ∈ loaded := by
      intro k hk
      by_contra hnot
      exact hk (if_neg hnot)
    rw [hholds.get_eq hkeys (h.recorded.size ▸ hroom)] at hget
    exact hkeys path hget
  · have hsub : loaded ⊆ few := fun p hp => hmem p (h.included p (.inl hp))
    have hperm : loaded.Perm few :=
      (hnodup.subperm hsub).perm_of_length_le (Nat.le_trans hlength hfull)
    exact hperm.mem_iff.mpr (hmem path hpath)

/-- A path that is taken from the queue and found in the table. -/
theorem Loading.skip (h : Loading files glob root config loaded) {path : CStr} {rest : List CStr}
    (hqueue : config.includes = path :: rest)
    (hget : hashGet config.processedIncludes path ≠ none) :
    Loading files glob root { config with includes := rest } loaded where
  recorded := h.recorded
  included p hp := h.included p (hp.imp_right fun hrest => by
    rw [hqueue]
    exact List.mem_cons_of_mem _ hrest)
  holds := h.holds
  closed hshort hfew file hfile paths hpaths p hp := by
    obtain hloaded | hqueued := h.closed hshort hfew file hfile paths hpaths p hp
    · exact .inl hloaded
    · rw [hqueue] at hqueued
      obtain rfl | hrest := List.mem_cons.mp hqueued
      · exact .inl (h.known hshort hfew (h.included p (.inr (hqueue ▸ List.mem_cons_self))) hget)
      · exact .inr hrest

/-- A path that is taken from the queue and not found in the table: the file is parsed. -/
theorem Loading.parse (h : Loading files glob root config loaded) {path : CStr} {rest : List CStr}
    (hqueue : config.includes = path :: rest) (hget : hashGet config.processedIncludes path = none)
    {paths : List CStr} (hpaths : includedBy files glob path = some paths) :
    ∃ config', configParseFile files glob { config with includes := rest } path = some config' ∧
      Loading files glob root config' (loaded ++ [path]) := by
  obtain ⟨config', hparse, hprocessed, hincludes⟩ :=
    configParseFile_includes hpaths { config with includes := rest }
  have hpath : Included files glob root path := h.included path (.inr (hqueue ▸ List.mem_cons_self))
  refine ⟨config', hparse, ?_, ?_, ?_, ?_⟩
  · rw [hprocessed, List.length_append, List.length_singleton]
    exact h.recorded.insert hget
  · intro p hp
    rw [hincludes, List.mem_append, List.mem_append, List.mem_singleton] at hp
    obtain (hloaded | rfl) | hrest | hnew := hp
    · exact h.included p (.inl hloaded)
    · exact hpath
    · exact h.included p (.inr (hqueue ▸ List.mem_cons_of_mem _ hrest))
    · exact hpath.step hpaths (List.mem_filter.mp hnew).1
  · intro hshort
    obtain ⟨hholds, hnodup⟩ := h.holds hshort
    have hmap : Function.update (parsedMap loaded) path (some ()) = parsedMap (loaded ++ [path]) := by
      funext p
      by_cases hp : p = path
      · subst hp
        simp [parsedMap]
      · simp [parsedMap, hp]
    constructor
    · rw [hprocessed, ← hmap]
      exact .inl (hholds.insert (hshort path hpath) ())
    · have hnew : path ∉ loaded := by
        intro hmem
        have hsome : parsedMap loaded path = some () := if_pos hmem
        rw [hholds.get hsome] at hget
        cases hget
      exact List.nodup_append.mpr ⟨hnodup, List.nodup_singleton _, by
        intro a ha b hb hab
        rw [List.mem_singleton.mp hb] at hab
        exact hnew (hab ▸ ha)⟩
  · intro hshort hfew file hfile paths' hpaths' p hp
    rw [hincludes, List.mem_append, List.mem_append, List.mem_singleton]
    obtain hold | rfl := (List.mem_append.trans (or_congr_right List.mem_singleton)).mp hfile
    · obtain hloaded | hqueued := h.closed hshort hfew file hold paths' hpaths' p hp
      · exact .inl (.inl hloaded)
      · rw [hqueue] at hqueued
        obtain rfl | hrest := List.mem_cons.mp hqueued
        · exact .inl (.inr rfl)
        · exact .inr (.inl hrest)
    · rw [hpaths] at hpaths'
      cases hpaths'
      cases hknown : hashGet config.processedIncludes p with
      | none => exact .inr (.inr (List.mem_filter.mpr ⟨hp, by rw [hknown]; rfl⟩))
      | some v =>
        exact .inl (.inl (h.known hshort hfew (hpath.step hpaths hp) (by rw [hknown]; simp)))

/-- The loop over the queue ends, with an empty queue. -/
theorem Loading.run (hparse : ∀ path, Included files glob root path →
      (includedBy files glob path).isSome) (room : Nat) (h : Loading files glob root config loaded)
    (hroom : loaded.length + room = configInitIncludes) :
    ∃ more config' enough, (∀ fuel ≥ enough, configLoadIncludes files glob fuel config =
        some (more, config')) ∧
      Loading files glob root config' (loaded ++ more) ∧ config'.includes = [] := by
  induction room using Nat.strong_induction_on generalizing config loaded with
  | _ room ihroom =>
  generalize hqueue : config.includes = queue
  induction queue generalizing config with
  | nil =>
    refine ⟨[], config, 1, ?_, by rwa [List.append_nil], hqueue⟩
    intro fuel hfuel
    obtain ⟨fuel, rfl⟩ := Nat.exists_eq_succ_of_ne_zero (by omega : fuel ≠ 0)
    rw [configLoadIncludes, hqueue]
  | cons path rest ihqueue =>
    cases hget : hashGet config.processedIncludes path with
    | some v =>
      obtain ⟨more, config', enough, hrun, hend⟩ :=
        ihqueue (h.skip hqueue (by rw [hget]; simp)) rfl
      refine ⟨more, config', enough + 1, ?_, hend⟩
      intro fuel hfuel
      obtain ⟨fuel, rfl⟩ := Nat.exists_eq_succ_of_ne_zero (by omega : fuel ≠ 0)
      rw [configLoadIncludes, hqueue]
      simp only [hget, Option.isNone_some, Bool.false_eq_true, ↓reduceIte]
      exact hrun fuel (by omega)
    | none =>
      have hlt := h.recorded.room hget
      have hpath : Included files glob root path := h.included path (.inr (hqueue ▸ List.mem_cons_self))
      obtain ⟨paths, hpaths⟩ := Option.isSome_iff_exists.mp (hparse path hpath)
      obtain ⟨config₁, hfile, h₁⟩ := h.parse hqueue hget hpaths
      have hlength : (loaded ++ [path]).length = loaded.length + 1 := by simp
      obtain ⟨more, config', enough, hrun, hend, hempty⟩ :=
        ihroom (room - 1) (by omega) h₁ (by omega)
      refine ⟨path :: more, config', enough + 2, ?_, ?_, hempty⟩
      · intro fuel hfuel
        obtain ⟨fuel, rfl⟩ := Nat.exists_eq_succ_of_ne_zero (by omega : fuel ≠ 0)
        obtain ⟨fuel, rfl⟩ := Nat.exists_eq_succ_of_ne_zero (by omega : fuel ≠ 0)
        rw [configLoadIncludes, hqueue]
        simp only [hget, Option.isNone_none, ↓reduceIte, configLoadFile, hfile, Option.bind_some,
          hrun fuel (by omega), Option.map_some, configLoadIncludes, hempty, List.append_nil]
      · rwa [List.append_assoc] at hend

theorem Included.mem_of_closed {few : List CStr} (hroot : root ∈ few)
    (hclosed : ∀ file ∈ few, ∀ paths, includedBy files glob file = some paths →
      ∀ path ∈ paths, path ∈ few) {path : CStr} (h : Included files glob root path) : path ∈ few := by
  induction h with
  | root => exact hroot
  | step _ hpaths hmem ih => exact hclosed _ ih _ hpaths _ hmem

/-- Loading a file ends and parses three files at most. Where the table keeps the path names
whole, every file that include statements lead to is parsed exactly once if and only if there are
three at most. -/
theorem configLoadFile_once_iff (hparse : ∀ path, Included files glob root path →
      (includedBy files glob path).isSome) :
    ∃ loaded config' enough, (∀ fuel ≥ enough,
        configLoadFile files glob fuel configCreate (some root) = some (loaded, config')) ∧
      loaded.length ≤ configInitIncludes ∧
      (ShortPaths files glob root →
        ((loaded.Nodup ∧ ∀ path, path ∈ loaded ↔ Included files glob root path) ↔
          FewFiles files glob root)) := by
  have hbegin : Loading files glob root { configCreate with includes := [root] } [] := by
    refine ⟨⟨rfl, .inl ⟨rfl, rfl⟩⟩, ?_, ?_, ?_⟩
    · intro path hpath
      obtain hnone | hroot := hpath
      · cases hnone
      · rw [List.mem_singleton.mp hroot]
        exact .root
    · exact fun _ => ⟨holds_create (by decide), List.nodup_nil⟩
    · intro _ _ file hfile
      cases hfile
  obtain ⟨paths, hpaths⟩ := Option.isSome_iff_exists.mp (hparse root .root)
  obtain ⟨config₁, hfile, h₁⟩ := hbegin.parse rfl rfl hpaths
  obtain ⟨more, config', enough, hrun, hend, hempty⟩ := h₁.run hparse 2 rfl
  refine ⟨root :: more, config', enough + 1, ?_, hend.recorded.le, fun hshort => ⟨?_, ?_⟩⟩
  · intro fuel hfuel
    obtain ⟨fuel, rfl⟩ := Nat.exists_eq_succ_of_ne_zero (by omega : fuel ≠ 0)
    have hroot : configParseFile files glob configCreate root = some config₁ := hfile
    rw [configLoadFile, hroot, Option.bind_some, hrun fuel (by omega), Option.map_some]
  · intro hexact
    exact ⟨root :: more, hend.recorded.le, fun path hpath => (hexact.2 path).mpr hpath⟩
  · intro hfew
    refine ⟨(hend.holds hshort).2, fun path => ⟨fun hmem => hend.included path (.inl hmem), ?_⟩⟩
    refine Included.mem_of_closed List.mem_cons_self fun file hmem paths hincluded p hp => ?_
    obtain hloaded | hqueued := hend.closed hshort hfew file hmem paths hincluded p hp
    · exact hloaded
    · rw [hempty] at hqueued
      cases hqueued

/-- Two files that include each other. -/
def cyclicFiles (path : CStr) : Option (List Char) :=
  if path = "a".toList then some "include \"b\"\n".toList
  else if path = "b".toList then some "include \"a\"\n".toList
  else none

theorem configLoadFile_once_cyclic :
    ∃ loaded config' enough, (∀ fuel ≥ enough,
        configLoadFile cyclicFiles (fun s => [s]) fuel configCreate (some "a".toList) =
          some (loaded, config')) ∧
      loaded.length ≤ configInitIncludes ∧
      (ShortPaths cyclicFiles (fun s => [s]) "a".toList →
        ((loaded.Nodup ∧ ∀ path, path ∈ loaded ↔
            Included cyclicFiles (fun s => [s]) "a".toList path) ↔
          FewFiles cyclicFiles (fun s => [s]) "a".toList)) := by
  have ha : includedBy cyclicFiles (fun s => [s]) "a".toList = some ["b".toList] := by decide +kernel
  have hb : includedBy cyclicFiles (fun s => [s]) "b".toList = some ["a".toList] := by decide +kernel
  refine configLoadFile_once_iff fun path hpath => ?_
  have hmem : path ∈ ["a".toList, "b".toList] := by
    refine hpath.mem_of_closed (by simp) fun file hfile paths hpaths p hp => ?_
    obtain rfl | rfl : file = "a".toList ∨ file = "b".toList := by simpa using hfile
    · rw [ha] at hpaths
      cases hpaths
      exact List.mem_cons_of_mem _ hp
    · rw [hb] at hpaths
      cases hpaths
      rw [List.mem_singleton.mp hp]
      exact List.mem_cons_self
  obtain rfl | rfl : path = "a".toList ∨ path = "b".toList := by simpa using hmem
  · rw [ha]
    rfl
  · rw [hb]
    rfl

/-- A file with three include statements, and the three files. -/
def fourFiles (path : CStr) : Option (List Char) :=
  if path = "a".toList then some "include \"b\"\ninclude \"c\"\ninclude \"d\"\n".toList
  else some []

/-- The last of four files is left out. -/
theorem fourth_file_skipped :
    (configLoadFile fourFiles (fun s => [s]) 20 configCreate (some "a".toList)).map Prod.fst =
        some ["a".toList, "b".toList, "c".toList] ∧
      Included fourFiles (fun s => [s]) "a".toList "d".toList := by
  have hpaths : includedBy fourFiles (fun s => [s]) "a".toList =
      some ["b".toList, "c".toList, "d".toList] := by decide +kernel
  exact ⟨by decide +kernel, .step .root hpaths (by simp)⟩

end Run

end Greyd
