import SessionPool.Proofs.CommandLine.Values

/-!
# Command lines are read as they are rendered

A command line can be rendered in many ways: the settings of its target stand on either side of the
command, in any order, the `-v` all on one side, and the settings of its load somewhere after the
command, where one that has its default need not stand at all. All of these are read back,

    c.Renders arguments  ⟹  ofArguments arguments = .ok c.
-/

namespace SessionPool.CommandLine

/-! ### Renderings -/

/-- An argument of a rendering. -/
inductive Token where
  | verbose
  | setting (s : Setting) (value : String)
  deriving DecidableEq, Repr

namespace Token

def argument : Token → String
  | verbose => "-v"
  | setting s value => s.argument value

def setting? : Token → Option (Setting × String)
  | verbose => none
  | setting s value => some (s, value)

/-- The settings among some arguments. -/
def settings (ts : List Token) : List (Setting × String) := ts.filterMap setting?

end Token

theorem Token.settings_append (left right : List Token) :
    Token.settings (left ++ right) = Token.settings left ++ Token.settings right :=
  List.filterMap_append

/-- The arguments on the left and on the right of the command render a command line. -/
structure Lays (c : CommandLine) (left right : List Token) : Prop where
  /-- The verbosity is on one side. -/
  verbosity :
    left.count .verbose = c.verbosity.toNat ∧ right.count .verbose = 0 ∨
    left.count .verbose = 0 ∧ right.count .verbose = c.verbosity.toNat
  /-- Each setting stands there once, but for those of the load that are left out. -/
  settings : ∃ given,
    (Token.settings (left ++ right)).Perm (c.target.settings ++ given) ∧
    given.Sublist c.command.settings ∧
    ∀ entry ∈ c.command.settings, entry ∉ given → entry ∈ ({} : Stress.Load).settings
  /-- On the left there is nothing but settings of the target. -/
  left : ∀ entry ∈ Token.settings left, entry ∈ c.target.settings

/-- Some arguments render a command line. -/
def Renders (c : CommandLine) (arguments : List String) : Prop :=
  ∃ left right, c.Lays left right ∧
    arguments = left.map Token.argument ++ c.command.verb.word :: right.map Token.argument

/-- Everything but the verbosity can stand after the command. -/
theorem renders_arguments (c : CommandLine) : c.Renders c.arguments := by
  have hleft : Token.settings (List.replicate c.verbosity.toNat .verbose) = [] := by
    rw [Token.settings, List.filterMap_replicate]
    rfl
  have hright : Token.settings ((c.target.settings ++ c.command.settings).map
      fun entry => .setting entry.1 entry.2) = c.target.settings ++ c.command.settings := by
    rw [Token.settings, List.filterMap_map]
    exact List.filterMap_some
  refine ⟨List.replicate c.verbosity.toNat .verbose,
    (c.target.settings ++ c.command.settings).map fun entry => .setting entry.1 entry.2,
    ⟨.inl ⟨List.count_replicate_self, ?_⟩, ⟨c.command.settings, ?_, List.Sublist.refl _, ?_⟩, ?_⟩,
    ?_⟩
  · rw [List.count_eq_zero]
    simp
  · rw [Token.settings_append, hleft, hright]
    exact List.Perm.refl _
  · exact fun entry hentry hnone => absurd hentry hnone
  · rw [hleft]
    exact nofun
  · rw [List.map_replicate, List.map_map]
    rfl

/-! ### One argument -/

/-- A side knows a setting, and its value is written as it should be. -/
def Side.Knows (side : Side) : Token → Prop
  | .verbose => True
  | .setting s value => s ∈ side.settings ∧ s.Writes value

theorem toList_argument (s : Setting) (value : String) :
    (s.argument value).toList = '-' :: '-' :: (s.name.toList ++ '=' :: value.toList) := by
  simp [Setting.argument, toString]

theorem byName?_name {side : Side} {s : Setting} (hs : s ∈ side.settings) :
    side.byName? s.name.toList = some (.setting s) := by
  have hfind : side.settings.find? (·.name.toList == s.name.toList) = some s := by
    rcases side with _ | (_ | _) <;> cases s <;> first | rfl | exact absurd hs (by decide)
  rw [Side.byName?, hfind]

theorem byLetter?_verbose (side : Side) : side.byLetter? 'v' = some .verbose := by
  rcases side with _ | (_ | _) <;> decide

/-- A value may contain equals signs, but a name does not. -/
theorem shape_argument (s : Setting) (value : String) :
    Shape.ofArgument (s.argument value).toList = .named s.name.toList (some value.toList) := by
  have hname : s.name.toList.all (· != '=') = true := by
    cases s <;> decide
  rw [List.all_eq_true] at hname
  obtain ⟨c, name, hcons⟩ : ∃ c name, s.name.toList = c :: name := by
    cases s <;> exact ⟨_, _, rfl⟩
  have hshape : Shape.ofArgument ('-' :: '-' :: (s.name.toList ++ '=' :: value.toList)) =
      .named ((s.name.toList ++ '=' :: value.toList).takeWhile (· != '='))
        ((s.name.toList ++ '=' :: value.toList).dropWhile (· != '=')).tail? := by
    rw [hcons]
    rfl
  rw [toList_argument, hshape, List.takeWhile_append_of_pos hname,
    List.dropWhile_append_of_pos hname]
  simp

/-- No option is taken for a command. -/
theorem isCommandWord_of_hyphen {word : String} (h : word.toList.head? = some '-') :
    isCommandWord word = false := by
  have other {known : String} (hknown : known.toList.head? ≠ some '-') : known ≠ word := by
    rintro rfl
    exact hknown h
  have hhelp : (word == helpWord) = false := by
    simpa using (other (by decide)).symm
  have hverb : Verb.ofWord? word = none := by
    rw [Verb.ofWord?, List.find?_eq_none]
    intro verb _ hword
    cases verb with
    | probe => exact other (by decide) (beq_iff_eq.mp hword)
    | stress => exact other (by decide) (beq_iff_eq.mp hword)
  rw [isCommandWord, hhelp, hverb]
  rfl

/-- What is given after one argument more. -/
def Given.take (g : Given) : Token → Except Fault Given
  | .verbose => .ok g.moreVerbose
  | .setting s value => g.set s value

theorem readLetters_verbose (side : Side) (g : Given) :
    Progress.readLetters side { given := g } ['v'] = .ok { given := g.moreVerbose } := by
  rw [Progress.readLetters.eq_def]
  simp only [byLetter?_verbose]
  rfl

theorem readNamed_setting {side : Side} {s : Setting} (hs : s ∈ side.settings) (g : Given)
    (value : String) :
    Progress.readNamed side { given := g } s.name.toList (some value.toList) =
      (g.set s value).map fun given => { given } := by
  simp only [Progress.readNamed, byName?_name hs, Progress.set, String.ofList_toList]
  cases hset : g.set s value with
  | error fault => simp [Progress.settle, bind, Except.bind, hset, Except.map]
  | ok given => simp [Progress.settle, bind, Except.bind, hset, Except.map, pure, Except.pure]

/-- An argument is read as the option that it was rendered from. -/
theorem readSide_token {side : Side} {t : Token} (ht : side.Knows t) (g : Given)
    (tail : List String) :
    readSide side { given := g } (t.argument :: tail) =
      (g.take t).bind fun g => readSide side { given := g } tail := by
  have hword : isCommandWord t.argument = false := by
    cases t with
    | verbose => decide
    | setting s value =>
      apply isCommandWord_of_hyphen
      rw [Token.argument, toList_argument]
      rfl
  rw [readSide.eq_def]
  simp only [hword, Bool.false_eq_true, and_false, ↓reduceIte]
  cases t with
  | verbose =>
    have hshape : Shape.ofArgument Token.verbose.argument.toList = .letters ['v'] := by decide
    simp only [hshape, readLetters_verbose]
    rfl
  | setting s value =>
    have hshape : Shape.ofArgument (Token.setting s value).argument.toList =
        .named s.name.toList (some value.toList) := shape_argument s value
    simp only [hshape, readNamed_setting ht.1, Given.take]
    cases g.set s value <;> rfl

/-! ### One side -/

theorem toNat_moreVerbose (g : Given) :
    g.moreVerbose.verbosity.toNat = min 255 (g.verbosity.toNat + 1) := by
  have hbyte := g.verbosity.toNat_lt
  by_cases hfull : g.verbosity = 255
  · rw [Given.moreVerbose, if_pos hfull, hfull]
    rfl
  · have hless : g.verbosity.toNat ≠ 255 := fun h => hfull (UInt8.toNat_inj.mp h)
    rw [Given.moreVerbose, if_neg hfull]
    simp only [UInt8.toNat_add, UInt8.reduceToNat]
    omega

/-- **A side is read as it is rendered**, if its settings are not given before and each stands there
once. What follows is left to be read. -/
theorem readSide_tokens {side : Side} {ts : List Token} (hknows : ∀ t ∈ ts, side.Knows t)
    (honce : ((Token.settings ts).map (·.1)).Nodup) {g : Given}
    (hfree : ∀ entry ∈ Token.settings ts, g.text? entry.1 = none) (tail : List String) :
    ∃ g', readSide side { given := g } (ts.map Token.argument ++ tail) =
        readSide side { given := g' } tail ∧
      g'.verbosity.toNat = min 255 (g.verbosity.toNat + ts.count .verbose) ∧
      ∀ s value, g'.text? s = some value ↔
        g.text? s = some value ∨ (s, value) ∈ Token.settings ts := by
  induction ts generalizing g with
  | nil =>
    have hbyte := g.verbosity.toNat_lt
    exact ⟨g, rfl, by simp; omega, by simp [Token.settings]⟩
  | cons t ts ih =>
    have hknows' : ∀ t ∈ ts, side.Knows t := fun t ht => hknows t (List.mem_cons_of_mem _ ht)
    have hread := readSide_token (hknows t List.mem_cons_self) g (ts.map Token.argument ++ tail)
    rw [List.map_cons, List.cons_append, hread]
    cases t with
    | verbose =>
      obtain ⟨g', hrest, hverbosity, htext⟩ := ih hknows' honce (g := g.moreVerbose) hfree
      refine ⟨g', hrest, ?_, htext⟩
      rw [hverbosity, toNat_moreVerbose, List.count_cons_self]
      omega
    | setting s value =>
      have hsettings : Token.settings (.setting s value :: ts) = (s, value) :: Token.settings ts :=
        rfl
      rw [hsettings, List.map_cons, List.nodup_cons] at honce
      obtain ⟨hnew, honce⟩ := honce
      obtain ⟨g₁, hset, hsame, htext₁⟩ := g.set_eq (hknows _ List.mem_cons_self).2
        (hfree (s, value) List.mem_cons_self)
      -- The settings that follow are still free, since this one is not among them.
      have hfree₁ : ∀ entry ∈ Token.settings ts, g₁.text? entry.1 = none := by
        intro entry hentry
        have hne : entry.1 ≠ s := by
          rintro rfl
          exact hnew (List.mem_map.mpr ⟨entry, hentry, rfl⟩)
        rw [htext₁, if_neg hne]
        exact hfree entry (List.mem_cons_of_mem _ hentry)
      obtain ⟨g', hrest, hverbosity, htext⟩ := ih hknows' honce hfree₁
      refine ⟨g', ?_, ?_, fun s' value' => ?_⟩
      · rw [Given.take, hset]
        exact hrest
      · rw [hverbosity, hsame, List.count_cons_of_ne (by simp)]
      · rw [htext, htext₁, hsettings, List.mem_cons]
        by_cases hs : s' = s
        · subst hs
          have hnone := hfree (s', value) List.mem_cons_self
          simp [hnone, eq_comm]
        · simp [hs]

/-- The left side ends at the command. -/
theorem readSide_word (g : Given) (verb : Verb) (rest : List String) :
    readSide .left { given := g } (verb.word :: rest) =
      .ok ({ given := g }, verb.word :: rest) := by
  rw [readSide.eq_def]
  cases verb <;> rfl

/-! ### The settings of a command line -/

theorem mem_targetSettings {t : Target} {s : Setting} {value : String} :
    (s, value) ∈ t.settings ↔ t.text? s = some value := by
  cases s <;> simp [Target.settings, Target.text?]

theorem keys_settings (c : CommandLine) :
    ((c.target.settings ++ c.command.settings).map (·.1)).Nodup := by
  have option {α : Type} (o : Option α) (s : Setting) (write : α → String) :
      ((o.map fun v => (s, write v)).toList.map (·.1)).Sublist [s] := by
    cases o with
    | none => exact List.nil_sublist _
    | some v => exact List.Sublist.refl _
  have htarget : (c.target.settings.map (·.1)).Sublist Setting.ofTarget := by
    simp only [Target.settings, List.map_append]
    exact ((((option _ _ _).append (option _ _ _)).append (option _ _ _)).append
      (option _ _ _)).append (option _ _ _)
  have hcommand : (c.command.settings.map (·.1)).Sublist Setting.ofLoad := by
    cases c.command with
    | probe => exact List.nil_sublist _
    | stress load => exact List.Sublist.refl _
  rw [List.map_append]
  exact (htarget.append hcommand).nodup (by decide : (Setting.ofTarget ++ Setting.ofLoad).Nodup)

/-- The texts of a target are written as they should be, if the path is not empty. -/
theorem writes_targetSettings {t : Target} (hconfig : t.config ≠ some "") {s : Setting}
    {value : String} (h : (s, value) ∈ t.settings) : s ∈ Setting.ofTarget ∧ s.Writes value := by
  rw [mem_targetSettings] at h
  cases s with
  | config =>
    refine ⟨by decide, ?_⟩
    rintro rfl
    exact hconfig h
  | host => exact ⟨by decide, trivial⟩
  | port =>
    obtain ⟨n, -, rfl⟩ := Option.map_eq_some_iff.mp h
    exact ⟨by decide, n, rfl⟩
  | domainId =>
    obtain ⟨n, -, rfl⟩ := Option.map_eq_some_iff.mp h
    exact ⟨by decide, n, rfl⟩
  | connectTimeoutMs =>
    obtain ⟨n, -, rfl⟩ := Option.map_eq_some_iff.mp h
    exact ⟨by decide, n, rfl⟩
  | workers => cases h
  | rounds => cases h

theorem writes_commandSettings {command : Command} {s : Setting} {value : String}
    (h : (s, value) ∈ command.settings) :
    s ∈ Setting.ofLoad ∧ s.Writes value ∧ s ∈ (Side.right command.verb).settings := by
  cases command with
  | probe => cases h
  | stress load =>
    have hknown (s : Setting) (hs : s ∈ Setting.ofLoad) : s ∈ (Side.right .stress).settings :=
      List.mem_append_right _ hs
    rcases List.mem_cons.mp h with heq | h
    · cases heq
      exact ⟨by decide, ⟨load.workers, rfl⟩, hknown .workers (by decide)⟩
    · cases List.mem_singleton.mp h
      exact ⟨by decide, ⟨load.rounds, rfl⟩, hknown .rounds (by decide)⟩

/-- A load is what is given of it, as long as nothing is left out but defaults. -/
theorem load_eq {g : Given} {load : Stress.Load}
    (hgiven : ∀ s value, s ∈ Setting.ofLoad → g.text? s = some value → (s, value) ∈ load.settings)
    (hmissing : ∀ entry ∈ load.settings, g.text? entry.1 ≠ some entry.2 →
      entry ∈ ({} : Stress.Load).settings) : g.load = load := by
  have hinjective := Text.injective_of_read Text.readUInt64_toString
  have value {o : Option UInt64} {n default : UInt64}
      (hsome : ∀ m, o = some m → toString m = toString n)
      (hnone : o = none → toString n = toString default) : o.getD default = n := by
    cases o with
    | none => exact (hinjective (hnone rfl)).symm
    | some m => exact hinjective (hsome m rfl)
  have hworkers : g.workers.getD ({} : Stress.Load).workers = load.workers := by
    refine value (fun m hm => ?_) fun hm => ?_
    · have h := hgiven .workers (toString m) (by decide) (by rw [Given.text?, hm]; rfl)
      simpa [Stress.Load.settings] using h
    · have h := hmissing (.workers, toString load.workers) List.mem_cons_self
        (by rw [Given.text?, hm]; simp)
      simpa [Stress.Load.settings] using h
  have hrounds : g.rounds.getD ({} : Stress.Load).rounds = load.rounds := by
    refine value (fun m hm => ?_) fun hm => ?_
    · have h := hgiven .rounds (toString m) (by decide) (by rw [Given.text?, hm]; rfl)
      simpa [Stress.Load.settings] using h
    · have h := hmissing (.rounds, toString load.rounds) (by simp [Stress.Load.settings])
        (by rw [Given.text?, hm]; simp)
      simpa [Stress.Load.settings] using h
  rw [Given.load, hworkers, hrounds]

/-! ### Both sides -/

/-- The right side counts unless there is no `-v` on it, and then they are all on the left. -/
theorem verbosity_orElse {c : CommandLine} {left right : List Token} (h : c.Lays left right)
    {l r : Given} (hl : l.verbosity.toNat = left.count .verbose)
    (hr : r.verbosity.toNat = right.count .verbose) :
    (r.orElse l).verbosity = c.verbosity := by
  apply UInt8.toNat_inj.mp
  rw [Given.orElse]
  dsimp only
  by_cases hzero : r.verbosity = 0
  · rw [if_pos hzero, hl]
    rw [hzero] at hr
    rcases h.verbosity with ⟨hleft, -⟩ | ⟨hleft, hright⟩
    · exact hleft
    · rw [hleft, ← hright, ← hr]
      rfl
  · rw [if_neg hzero, hr]
    rcases h.verbosity with ⟨-, hright⟩ | ⟨-, hright⟩
    · exact absurd (UInt8.toNat_inj.mp (hr.trans hright : _ = UInt8.toNat 0)) hzero
    · exact hright

/-- What is read from both sides is what was rendered on either of them. -/
theorem commandLine_eq {c : CommandLine} {left right : List Token} (h : c.Lays left right)
    {l r : Given}
    (hl : l.verbosity.toNat = left.count .verbose) (hr : r.verbosity.toNat = right.count .verbose)
    (htext : ∀ s value, (r.orElse l).text? s = some value ↔
      (s, value) ∈ Token.settings (left ++ right)) :
    (r.orElse l).commandLine c.command.verb = c := by
  have hverbose := verbosity_orElse h hl hr
  obtain ⟨verbosity, target, command⟩ := c
  obtain ⟨-, ⟨given, hperm, hsub, hmissing⟩, -⟩ := h
  generalize r.orElse l = g at htext hverbose ⊢
  have hmem (s : Setting) (value : String) : g.text? s = some value ↔
      target.text? s = some value ∨ (s, value) ∈ given := by
    rw [htext, hperm.mem_iff, List.mem_append, mem_targetSettings]
  have hload {s : Setting} {value : String} (hgiven : (s, value) ∈ given) : s ∈ Setting.ofLoad :=
    (writes_commandSettings (hsub.subset hgiven)).1
  -- What is given of the load leaves the target alone.
  have htarget : g.target = target := by
    refine Target.eq_of_text fun s => Option.ext fun value => ?_
    rw [Given.text?_target]
    split
    · next hs => cases s <;> first | exact absurd hs (by decide) | exact Iff.rfl
    · next hs =>
      rw [hmem]
      exact or_iff_left fun hgiven => hs (hload hgiven)
  have hline : g.commandLine command.verb = ⟨g.verbosity, g.target, command⟩ := by
    cases command with
    | probe => rfl
    | stress load =>
      have hsame : g.load = load := by
        refine load_eq (fun s value hs hvalue => ?_) fun entry hentry hnone => ?_
        · rcases (hmem s value).mp hvalue with htarget | hgiven
          · cases s <;> first | cases htarget | exact absurd hs (by decide)
          · exact hsub.subset hgiven
        · exact hmissing entry hentry fun hgiven => hnone ((hmem _ _).mpr (.inr hgiven))
      exact congrArg (fun load => CommandLine.mk g.verbosity g.target (.stress load)) hsame
  rw [hline, htarget]
  exact congrArg (CommandLine.mk · target command) hverbose

theorem Token.mem_settings {ts : List Token} {s : Setting} {value : String}
    (h : .setting s value ∈ ts) : (s, value) ∈ Token.settings ts :=
  List.mem_filterMap.mpr ⟨_, h, rfl⟩

namespace Lays

variable {c : CommandLine} {left right : List Token}

/-- No setting stands there twice, on whichever side. -/
theorem once (h : c.Lays left right) :
    ((Token.settings left).map (·.1) ++ (Token.settings right).map (·.1)).Nodup := by
  obtain ⟨given, hperm, hsub, -⟩ := h.settings
  have hkeys := (((List.Sublist.refl c.target.settings).append hsub).map (·.1)).nodup
    c.keys_settings
  rw [← List.map_append, ← Token.settings_append]
  exact (hperm.map _).nodup_iff.mpr hkeys

theorem count_le (h : c.Lays left right) :
    left.count .verbose ≤ 255 ∧ right.count .verbose ≤ 255 := by
  have hbyte := c.verbosity.toNat_lt
  rcases h.verbosity with ⟨hleft, hright⟩ | ⟨hleft, hright⟩ <;> omega

variable (hconfig : c.target.config ≠ some "")

include hconfig

theorem knows_left (h : c.Lays left right) : ∀ t ∈ left, Side.left.Knows t := by
  intro t ht
  cases t with
  | verbose => trivial
  | setting s value =>
    exact writes_targetSettings hconfig (h.left _ (Token.mem_settings ht))

theorem knows_right (h : c.Lays left right) :
    ∀ t ∈ right, (Side.right c.command.verb).Knows t := by
  intro t ht
  obtain ⟨given, hperm, hsub, -⟩ := h.settings
  cases t with
  | verbose => trivial
  | setting s value =>
    have hmem : (s, value) ∈ c.target.settings ++ given :=
      hperm.mem_iff.mp (Token.mem_settings (List.mem_append_right left ht))
    rcases List.mem_append.mp hmem with htarget | hgiven
    · obtain ⟨hs, hvalue⟩ := writes_targetSettings hconfig htarget
      refine ⟨?_, hvalue⟩
      cases c.command.verb with
      | probe => exact hs
      | stress => exact List.mem_append_left _ hs
    · obtain ⟨-, hvalue, hs⟩ := writes_commandSettings (hsub.subset hgiven)
      exact ⟨hs, hvalue⟩

end Lays

theorem text?_nothing (s : Setting) : ({} : Given).text? s = none := by
  cases s <;> rfl

/-- A side on which nothing is given before is read as it is rendered. -/
theorem readSide_fresh {side : Side} {ts : List Token} (hknows : ∀ t ∈ ts, side.Knows t)
    (honce : ((Token.settings ts).map (·.1)).Nodup) (hfew : ts.count .verbose ≤ 255)
    (tail : List String) :
    ∃ g, readSide side {} (ts.map Token.argument ++ tail) = readSide side { given := g } tail ∧
      g.verbosity.toNat = ts.count .verbose ∧
      ∀ s value, g.text? s = some value ↔ (s, value) ∈ Token.settings ts := by
  obtain ⟨g, hread, hverbosity, htext⟩ :=
    readSide_tokens hknows honce (g := {}) (fun entry _ => text?_nothing entry.1) tail
  refine ⟨g, hread, ?_, fun s value => ?_⟩
  · have hnone : ({} : Given).verbosity.toNat = 0 := rfl
    rw [hverbosity, hnone]
    omega
  · rw [htext, text?_nothing]
    exact or_iff_right nofun

/-- **A command line is read as it is rendered**, whatever stands on which side. -/
theorem ofArguments_of_renders {c : CommandLine} {arguments : List String}
    (h : c.Renders arguments) (hconfig : c.target.config ≠ some "") :
    ofArguments arguments = .ok c := by
  obtain ⟨left, right, hlays, rfl⟩ := h
  obtain ⟨honceLeft, honceRight, hapart⟩ := List.nodup_append.mp hlays.once
  obtain ⟨hfewLeft, hfewRight⟩ := hlays.count_le
  obtain ⟨l, hreadLeft, hl, htextLeft⟩ := readSide_fresh (hlays.knows_left hconfig) honceLeft
    hfewLeft (c.command.verb.word :: right.map Token.argument)
  obtain ⟨r, hreadRight, hr, htextRight⟩ := readSide_fresh (hlays.knows_right hconfig) honceRight
    hfewRight []
  rw [List.append_nil] at hreadRight
  have hword : Verb.ofWord? c.command.verb.word = some c.command.verb := by
    cases c.command.verb <;> decide
  have hread : ofArguments (left.map Token.argument ++ c.command.verb.word ::
      right.map Token.argument) = .ok ((r.orElse l).commandLine c.command.verb) := by
    rw [ofArguments, hreadLeft, readSide_word]
    simp only [bind, Except.bind, hword, hreadRight]
    rw [readSide.eq_def]
    rfl
  rw [hread, commandLine_eq hlays hl hr]
  intro s value
  rw [Given.text?_orElse, Option.or_eq_some_iff, Token.settings_append, List.mem_append,
    htextLeft, htextRight]
  -- What is given on the left is not given on the right as well.
  have hdisjoint (hleft : (s, value) ∈ Token.settings left) : r.text? s = none := by
    refine Option.eq_none_iff_forall_ne_some.mpr fun value' hvalue' => ?_
    exact hapart s (List.mem_map.mpr ⟨_, hleft, rfl⟩) s
      (List.mem_map.mpr ⟨_, (htextRight s value').mp hvalue', rfl⟩) rfl
  constructor
  · rintro (hright | ⟨-, hleft⟩)
    · exact .inr hright
    · exact .inl hleft
  · rintro (hleft | hright)
    · exact .inr ⟨hdisjoint hleft, hleft⟩
    · exact .inl hright

/-- Settings on both sides, a host that looks like an option, the longest number, and a load with
one default that is left out. -/
theorem ofArguments_bothSides :
    ofArguments ["--port=0", "--host=-w=--port=1", "stress", "-v", "--rounds=0", "--config=a=b", "-v",
        "--connect-timeout-ms=18446744073709551615"] =
      .ok {
        verbosity := 2
        target := {
          config := some "a=b"
          host := some "-w=--port=1"
          port := some 0
          connectTimeoutMs := some 18446744073709551615 }
        command := .stress ⟨8, 0⟩ } := by
  refine ofArguments_of_renders ⟨
    [.setting .port "0", .setting .host "-w=--port=1"],
    [.verbose, .setting .rounds "0", .setting .config "a=b", .verbose,
      .setting .connectTimeoutMs "18446744073709551615"],
    ⟨.inr (by decide), ⟨[(.rounds, "0")], ?_, ?_, ?_⟩, ?_⟩, ?_⟩ (by decide)
  · decide
  · decide
  · decide
  · decide
  · decide

end SessionPool.CommandLine
