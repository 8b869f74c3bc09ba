import CommandScript.Command.Registry
import CommandScript.Proofs.Command.FirstAppearance

/-!
# What a registry holds

After some registrations a registry holds each name once, in the order in which the names were
first registered, and under each name the module that was registered last. The words that it
makes known are the built-in ones and those of the modules that it holds now; a module that was
replaced leaves no word behind.

* `Registry.ofRegistrations`: the registry after some registrations.
* `Registry.names_ofRegistrations`, `Registry.mem_modules_iff`: its names and modules.
* `Registry.mem_commandWords`, `Registry.contains_commandWords`: the words that it makes known.
-/

namespace CommandScript

namespace CommandWords

theorem mem_insertAll {set : CommandWords} {words : List String} {w : String} :
    w ∈ (set.insertAll words).words ↔ w ∈ set.words ∨ ∃ word ∈ words, w = Text.lowered word := by
  unfold insertAll
  induction words generalizing set with
  | nil => simp
  | cons word rest ih =>
    rw [List.foldl_cons, ih, mem_insert, or_comm (a := w = Text.lowered word), or_assoc]
    simp only [List.mem_cons, exists_eq_or_imp]

end CommandWords

namespace Registry

/-- The registry after some modules were registered, each under a name. -/
def ofRegistrations (registrations : List (String × CommandModule)) : Registry :=
  registrations.foldl (fun registry entry => registry.register entry.1 entry.2) empty

theorem ofRegistrations_concat (registrations : List (String × CommandModule)) (name : String)
    (module : CommandModule) :
    ofRegistrations (registrations ++ [(name, module)]) =
      (ofRegistrations registrations).register name module := by
  rw [ofRegistrations, List.foldl_append]
  rfl

/-! ## Names and modules -/

theorem map_fst_put (name : String) (module : CommandModule)
    (modules : List (String × CommandModule)) :
    (put name module modules).map Prod.fst = withName (modules.map Prod.fst) name := by
  induction modules with
  | nil => exact (withName_nil name).symm
  | cons entry rest ih =>
    obtain ⟨other, old⟩ := entry
    unfold put
    by_cases h : name = other
    · subst h
      rw [if_pos rfl, List.map_cons, List.map_cons, withName_cons_self]
    · rw [if_neg h, List.map_cons, ih, List.map_cons, withName_cons_of_ne h]

theorem names_ofRegistrations (registrations : List (String × CommandModule)) :
    (ofRegistrations registrations).names = (registrations.map Prod.fst).eraseDups :=
  names_foldl (fun registry entry => map_fst_put entry.1 entry.2 registry.modules)
    List.nodup_nil registrations

/-- If the names are distinct, only the entry of the name changes. -/
theorem mem_put {name : String} {module : CommandModule} {modules : List (String × CommandModule)}
    (h : (modules.map Prod.fst).Nodup) {entry : String × CommandModule} :
    entry ∈ put name module modules ↔
      entry = (name, module) ∨ entry.1 ≠ name ∧ entry ∈ modules := by
  induction modules with
  | nil => simp [put]
  | cons first rest ih =>
    obtain ⟨other, old⟩ := first
    obtain ⟨hother, hrest⟩ := List.nodup_cons.mp h
    unfold put
    split
    · rename_i heq
      subst heq
      have hout : ∀ found ∈ rest, found.1 ≠ name := by
        rintro found hfound rfl
        exact hother (List.mem_map.mpr ⟨found, hfound, rfl⟩)
      simp only [List.mem_cons]
      constructor
      · rintro (rfl | hmem)
        · exact .inl rfl
        · exact .inr ⟨hout _ hmem, .inr hmem⟩
      · rintro (rfl | ⟨hne, rfl | hmem⟩)
        · exact .inl rfl
        · exact absurd rfl hne
        · exact .inr hmem
    · rename_i hne
      simp only [List.mem_cons, ih hrest]
      constructor
      · rintro (rfl | hnew | ⟨hout, hmem⟩)
        · exact .inr ⟨Ne.symm hne, .inl rfl⟩
        · exact .inl hnew
        · exact .inr ⟨hout, .inr hmem⟩
      · rintro (hnew | ⟨hout, rfl | hmem⟩)
        · exact .inr (.inl hnew)
        · exact .inl rfl
        · exact .inr (.inr ⟨hout, hmem⟩)

/-- Under each name stands the module that was registered last. -/
theorem mem_modules_iff {registrations : List (String × CommandModule)} {name : String}
    {module : CommandModule} :
    (name, module) ∈ (ofRegistrations registrations).modules ↔
      registrations.reverse.lookup name = some module := by
  induction registrations using List.reverseRecOn with
  | nil => simp [ofRegistrations, empty]
  | append_singleton registrations last ih =>
    obtain ⟨other, latest⟩ := last
    have hnames : ((ofRegistrations registrations).modules.map Prod.fst).Nodup := by
      have hnodup := nodup_eraseDups (registrations.map Prod.fst)
      rwa [← names_ofRegistrations] at hnodup
    rw [ofRegistrations_concat, register, mem_put hnames, ih, List.reverse_append,
      List.reverse_singleton, List.singleton_append]
    by_cases hname : name = other
    · subst hname
      simp [eq_comm]
    · simp [List.lookup_cons, hname, beq_false_of_ne hname]

/-! ## Words -/

theorem mem_offered {registry : Registry} {word : String} :
    word ∈ registry.offered ↔
      ∃ entry ∈ registry.modules, ∃ given ∈ entry.2.commands, word = Text.lowered given := by
  rw [offered, CommandWords.mem_insertAll]
  simp only [CommandWords.empty, List.not_mem_nil, false_or, List.mem_flatMap]
  constructor
  · rintro ⟨given, ⟨entry, hentry, hgiven⟩, rfl⟩
    exact ⟨entry, hentry, given, hgiven, rfl⟩
  · rintro ⟨entry, hentry, given, hgiven, rfl⟩
    exact ⟨given, ⟨entry, hentry, hgiven⟩, rfl⟩

/-- The words of the modules are known in their lowered form. -/
theorem mem_commandWords {registry : Registry} {word : String} :
    word ∈ registry.commandWords.words ↔
      word ∈ CommandWords.builtin.words ∨
        ∃ entry ∈ registry.modules, ∃ given ∈ entry.2.commands, word = Text.lowered given := by
  rw [commandWords, CommandWords.mem_insertAll, ← mem_offered]
  refine or_congr_right ⟨?_, fun h => ?_⟩
  · rintro ⟨given, hgiven, rfl⟩
    obtain ⟨entry, hentry, command, hcommand, rfl⟩ := mem_offered.mp hgiven
    rw [Text.lowered_lowered]
    exact hgiven
  · obtain ⟨entry, hentry, command, hcommand, rfl⟩ := mem_offered.mp h
    exact ⟨_, h, (Text.lowered_lowered command).symm⟩

/-- A word is known exactly if it is built in or some module of the registry accepts it. -/
theorem contains_commandWords {registry : Registry} {word : String} :
    registry.commandWords.contains word = true ↔
      CommandWords.builtin.contains word = true ∨
        ∃ entry ∈ registry.modules, entry.2.accepts word = true := by
  rw [CommandWords.contains_iff, mem_commandWords, CommandWords.contains_iff]
  refine or_congr_right (exists_congr fun entry => and_congr_right fun _ => ?_)
  simp only [CommandModule.accepts, List.any_eq_true, Text.sameWord_iff,
    @eq_comm _ (Text.lowered word)]

end Registry

end CommandScript
