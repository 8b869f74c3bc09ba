import CommandScript.Proofs.Command.Registration
import CommandScript.Proofs.Machine.Constant
import CommandScript.Proofs.Session.Splitting
import CommandScript.Proofs.Token.Words

/-!
# Registration and scanning stay in step

The registry of a session holds what the history has registered, and the scanner knows the
words of that registry. A registration changes both; whatever else a host does changes neither.
So a word starts commands exactly as long as it is built in or a module that is registered now
accepts it, whichever modules were registered before.

* `Session.Knows`: a session that holds some registrations and knows their words.
* `Session.knows_act`, `Session.knows_serve`: what an action and a history lead to.
* `Session.registration_in_step`: the registry, the words and the scan after a history.
-/

namespace CommandScript

/-- The module that an action registers, and its name. An installed module is registered under
its own name. -/
def HostAction.registration? : HostAction → Option (String × CommandModule)
  | .register name module => some (name, module)
  | .install module => some (module.name, module)
  | _ => none

namespace Session

/-- The registry holds these registrations, and the scanner knows its words. -/
structure Knows (session : Session) (registrations : List (String × CommandModule)) : Prop where
  registry : session.interpreter.registry = .ofRegistrations registrations
  words : session.words = session.interpreter.registry.commandWords

section Steps

variable {setting : Setting} {session next : Session}
  {registrations : List (String × CommandModule)}

theorem knows_initial (setting : Setting) (sink : Sink) : (initial setting sink).Knows [] :=
  ⟨rfl, rfl⟩

theorem Knows.withRegistry (h : session.Knows registrations) (name : String)
    (module : CommandModule) :
    (session.withRegistry (session.interpreter.registry.register name module)).Knows
      (registrations ++ [(name, module)]) := by
  refine ⟨?_, rfl⟩
  rw [Registry.ofRegistrations_concat, ← h.registry]
  rfl

/-- Nothing is registered, and the registry and the words stay. -/
theorem Knows.kept (h : session.Knows registrations)
    (hregistry : next.interpreter.registry = session.interpreter.registry)
    (hwords : next.words = session.words) : next.Knows (registrations ++ []) := by
  rw [List.append_nil]
  exact ⟨hregistry.trans h.registry, by rw [hwords, hregistry, h.words]⟩

theorem words_afterReading (session : Session) (source : String) :
    (session.afterReading source).words = session.words := by
  rw [afterReading_eq]

theorem registry_afterReading (session : Session) (source : String) :
    (session.afterReading source).interpreter.registry = session.interpreter.registry :=
  congrArg Interpreter.registry (session.afterReading_interpreter source)

/-- A run changes neither the registry nor the words, whatever the program does. -/
theorem Knows.run (h : session.Knows registrations) {source : String} {budget : Nat}
    {answer : HostAnswer} (hact : session.act setting (.run source budget) = .ok (answer, next)) :
    next.Knows (registrations ++ []) := by
  rcases act_run_cases hact with ⟨-, rfl⟩ | ⟨machine, hlaunch, -, rfl⟩
  · exact h.kept (session.registry_afterReading source) (session.words_afterReading source)
  · obtain ⟨⟨program, distances⟩, -, rfl⟩ := Option.map_eq_some_iff.mp hlaunch
    have hstart : ((session.interpreter.addDistances distances).start program).state =
        session.interpreter.addDistances distances := by cases program <;> rfl
    have hconserved := (Machine.conserves_after setting budget
      ((session.interpreter.addDistances distances).start program)).registry
    refine h.kept ?_ ((settle_reads _).1.trans (session.words_afterReading source))
    rw [settle_interpreter, Interpreter.collectAtEnd_eq, hconserved, hstart]
    rfl

theorem knows_act (h : session.Knows registrations) {action : HostAction} {answer : HostAnswer}
    (hact : session.act setting action = .ok (answer, next)) :
    next.Knows (registrations ++ action.registration?.toList) := by
  cases action with
  | run source budget => exact h.run hact
  | register name module | install module =>
    obtain ⟨-, rfl⟩ := Prod.mk.inj (Except.ok.inj hact)
    exact h.withRegistry _ module
  | parse source =>
    have hparsed : (session.parse source).2 = next := (Prod.mk.inj (Except.ok.inj hact)).2
    rw [← hparsed, parse_eq]
    exact h.kept (session.registry_afterReading source) (session.words_afterReading source)
  | setMode mode | define name value plain | takeEffects =>
    obtain ⟨-, rfl⟩ := Prod.mk.inj (Except.ok.inj hact)
    exact h.kept rfl rfl

theorem knows_serve (h : session.Knows registrations) {actions : List HostAction}
    (hfinished : (session.serve setting actions).2 = .finished next) :
    next.Knows (registrations ++ actions.filterMap HostAction.registration?) := by
  induction actions generalizing session registrations with
  | nil =>
    obtain rfl := Ending.finished.inj hfinished
    rwa [List.filterMap_nil, List.append_nil]
  | cons action rest ih =>
    unfold serve at hfinished
    cases hact : session.act setting action with
    | error machine =>
      rw [hact] at hfinished
      cases hfinished
    | ok result =>
      obtain ⟨answer, middle⟩ := result
      rw [hact] at hfinished
      have hrest := ih (knows_act h hact) hfinished
      rw [List.append_assoc] at hrest
      cases hregistration : action.registration? with
      | none =>
        rw [List.filterMap_cons_none hregistration]
        rwa [hregistration] at hrest
      | some registration =>
        rw [List.filterMap_cons_some hregistration]
        rwa [hregistration] at hrest

end Steps

/-- **Registration and scanning stay in step.** After any history of a session the registry
holds each registered name once, in the order of the first registrations, with the module that
was registered last under it. The scanner knows the built-in words and the lowered words of
these modules, and nothing else. So in every source a word that is no literal is a command
word exactly if it is built in or one of these modules accepts it; all others are key words and
names, those of replaced modules included. -/
theorem registration_in_step {setting : Setting} {sink : Sink} {actions : List HostAction}
    {session : Session}
    (hfinished : ((initial setting sink).serve setting actions).2 = .finished session) :
    let registrations := actions.filterMap HostAction.registration?
    let registry := session.interpreter.registry
    let isCommand (word : String) :=
      CommandWords.builtin.contains word = true ∨
        ∃ entry ∈ registry.modules, entry.2.accepts word = true
    registry.names.Nodup ∧ registry.names = (registrations.map Prod.fst).eraseDups ∧
      (∀ name module, (name, module) ∈ registry.modules ↔
        registrations.reverse.lookup name = some module) ∧
      (∀ word, word ∈ session.words.words ↔
        word ∈ CommandWords.builtin.words ∨
          ∃ entry ∈ registry.modules, ∃ given ∈ entry.2.commands, word = Text.lowered given) ∧
      ∀ word, IsWord word → word ∉ ["true", "false", "null"] →
        (∃ token, (scan session.words word).tokens = [token, .endOfInput 1] ∧
          token.lexeme = word) ∧
        ∀ source, ∀ token ∈ (scan session.words source).tokens, token.lexeme = word →
          (isCommand word → token.kind = .command) ∧
          (¬ isCommand word → token.kind = (TokenKind.keyword? word).getD .identifier) := by
  intro registrations registry isCommand
  obtain ⟨hregistry, hwords⟩ := knows_serve (knows_initial setting sink) hfinished
  rw [List.nil_append] at hregistry
  have hnames : registry.names = (registrations.map Prod.fst).eraseDups :=
    (congrArg Registry.names hregistry).trans (Registry.names_ofRegistrations registrations)
  have hmodules : ∀ name module, (name, module) ∈ registry.modules ↔
      registrations.reverse.lookup name = some module := by
    intro name module
    rw [← Registry.mem_modules_iff, ← hregistry]
  refine ⟨hnames ▸ nodup_eraseDups _, hnames, hmodules, fun word => ?_, fun word hword hplain => ?_⟩
  · rw [hwords]
    exact Registry.mem_commandWords
  · refine ⟨⟨wordToken session.words word 1, ?_, lexeme_wordToken⟩, ?_⟩
    · rw [scan_word hword]
    · rintro source token htoken rfl
      have hknown : session.words.contains token.lexeme = true ↔ isCommand token.lexeme := by
        rw [hwords]
        exact Registry.contains_commandWords
      have hkind := congrArg Token.kind (token_of_word htoken hword)
      rw [kind_wordToken hplain] at hkind
      exact ⟨fun h => hkind.trans (if_pos (hknown.mpr h)),
        fun h => hkind.trans (if_neg (mt hknown.mp h))⟩

/-- A module is replaced after a run. The word that only it has offered is a name again, and a
key word that the new module offers is a command word. -/
theorem registration_in_step_of_replaced :
    let setting : Setting := ⟨.resolved, some 1, fun _ _ _ => .ok .null⟩
    let module (name : String) (commands : List String) : CommandModule :=
      ⟨name, commands, fun _ => none, fun _ _ => .accepted⟩
    let actions : List HostAction :=
      [.register "bench" (module "a" ["Mix", "Open"]), .install (module "b" ["brew"]),
        .run "mix 1; var n = 2;" 50, .register "bench" (module "c" ["var"])]
    ∃ session : Session, ((initial setting .unlimited).serve setting actions).2 = .finished session ∧
      session.interpreter.registry.names = ["bench", "b"] ∧ IsWord "Mix" ∧ IsWord "Var" ∧
      (∀ source, ∀ token ∈ (scan session.words source).tokens, token.lexeme = "Mix" →
        token.kind = .identifier) ∧
      ∀ source, ∀ token ∈ (scan session.words source).tokens, token.lexeme = "Var" →
        token.kind = .command := by
  intro setting module actions
  have hmix : IsWord "Mix" := by decide
  have hvar : IsWord "Var" := by decide
  have hfacts : (match ((initial setting .unlimited).serve setting actions).2 with
      | .unfinished _ => false
      | .finished session =>
        (session.interpreter.registry.modules.all fun entry => !entry.2.accepts "Mix") &&
          session.interpreter.registry.modules.any fun entry => entry.2.accepts "Var") = true := by
    decide +kernel
  split at hfacts
  · cases hfacts
  · rename_i session hfinished
    obtain ⟨hnone, hsome⟩ := Bool.and_eq_true_iff.mp hfacts
    obtain ⟨-, hnames, -, -, hscan⟩ := registration_in_step hfinished
    obtain ⟨-, hmixes⟩ := hscan "Mix" hmix (by decide)
    obtain ⟨-, hvars⟩ := hscan "Var" hvar (by decide)
    refine ⟨session, hfinished, hnames, hmix, hvar, fun source token htoken hlexeme => ?_,
      fun source token htoken hlexeme => ?_⟩
    · refine (hmixes source token htoken hlexeme).2 ?_
      rintro (hbuiltin | ⟨entry, hentry, haccepts⟩)
      · exact absurd hbuiltin (by decide)
      · have hrefuses := List.all_eq_true.mp hnone entry hentry
        rw [haccepts] at hrefuses
        cases hrefuses
    · exact (hvars source token htoken hlexeme).1 (.inr (List.any_eq_true.mp hsome))

end Session

end CommandScript
