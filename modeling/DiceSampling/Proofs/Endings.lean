/-
# How a run of the command ends

All notations are read before anything is sampled, they are sampled one by one, and the
report is written last.  So a notation that cannot be read leaves no trace, a notation
without dice leaves the blocks of those before it and no report, and nothing else can go
wrong.
-/

import DiceSampling.Main
import DiceSampling.Proofs.CanonicalNotation
import DiceSampling.Proofs.Flags
import DiceSampling.Proofs.HistogramLines
import DiceSampling.Proofs.QuotedText
import DiceSampling.Proofs.Reports
import DiceSampling.Proofs.Runs
import DiceSampling.Proofs.SampledRuns

namespace DiceSampling

/-- A list that is not all of one kind has a first element that is not. -/
theorem exists_first_not {α : Type} {p : α → Prop} {l : List α} (h : ¬ ∀ a ∈ l, p a) :
    ∃ before a after, l = before ++ a :: after ∧ (∀ b ∈ before, p b) ∧ ¬ p a := by
  induction l with
  | nil => exact absurd (fun a absent => absurd absent List.not_mem_nil) h
  | cons a rest ih =>
      by_cases here : p a
      · have later : ¬ ∀ b ∈ rest, p b := fun all => h (List.forall_mem_cons.mpr ⟨here, all⟩)
        obtain ⟨before, b, after, split, all, fails⟩ := ih later
        exact ⟨a :: before, b, after, congrArg (a :: ·) split,
          List.forall_mem_cons.mpr ⟨here, all⟩, fails⟩
      · exact ⟨[], a, rest, rfl, by simp, here⟩

namespace Program

variable {options : Options}

section Reading

theorem specs_cons_of_error {text : String} {cause : NotationError}
    (fails : Notation.read text = .error cause) (rest : List String) :
    specs (text :: rest) = .error (.unreadable text cause) := by
  unfold specs
  rw [List.mapM_cons, fails]
  rfl

theorem specs_cons_of_ok {text : String} {spec : Spec} (reads : Notation.read text = .ok spec)
    (rest : List String) : specs (text :: rest) = (specs rest).map ((text, spec) :: ·) := by
  unfold specs
  rw [List.mapM_cons, reads]
  generalize (rest.mapM _ : Except Failure _) = others
  cases others <;> rfl

/-- Notations that can all be read give their specifications, in order. -/
theorem exists_specs {notations : List String}
    (readable : ∀ text ∈ notations, ∃ spec, Notation.read text = .ok spec) :
    ∃ named, specs notations = .ok named ∧ named.map Prod.fst = notations ∧
      ∀ pair ∈ named, pair.1 ∈ notations ∧ Notation.read pair.1 = .ok pair.2 := by
  induction notations with
  | nil => exact ⟨[], rfl, rfl, by simp⟩
  | cons text rest ih =>
      obtain ⟨⟨spec, reads⟩, others⟩ := List.forall_mem_cons.mp readable
      obtain ⟨named, hnamed, titles, all⟩ := ih others
      refine ⟨(text, spec) :: named, ?_, congrArg (text :: ·) titles,
        List.forall_mem_cons.mpr ⟨⟨List.mem_cons_self, reads⟩, fun pair mem => ?_⟩⟩
      · rw [specs_cons_of_ok reads, hnamed]
        rfl
      · exact ⟨List.mem_cons_of_mem text (all pair mem).1, (all pair mem).2⟩

/-- Notations after others that can be read. -/
theorem specs_append {before : List String} {named : List (String × Spec)}
    (h : specs before = .ok named) (rest : List String) :
    specs (before ++ rest) = (specs rest).map (named ++ ·) := by
  unfold specs at h ⊢
  rw [List.mapM_append, h]
  generalize (rest.mapM _ : Except Failure _) = others
  cases others <;> rfl

end Reading

section Sampling

variable {spec : Spec}

/-- Dice that are there can be sampled, and so can any dice no times. -/
theorem exists_sample (possible : options.samples = 0 ∨ spec.count ≠ 0) (g : Generator) :
    ∃ sample, Program.sample options spec g = .ok sample ∧ sample.len = options.samples := by
  let sampler := options.total (.plain spec Generator.source)
  have calls := sampler.length_results options.samples.toNat g
  rcases Act.exists_eq_map_ok_or (sampler.results options.samples.toNat g) with
    ⟨totals, all⟩ | ⟨totals, fault, rest, fails⟩
  · refine ⟨_, congrArg Prod.fst (Act.sampleInto_of_results all .empty), ?_⟩
    rw [all, List.length_map] at calls
    rw [(Sample.counts_recordAll totals).len_eq, calls, UInt64.ofNat_toNat]
  · obtain ⟨s, here⟩ := Act.exists_of_mem_results (fails ▸ List.mem_append_cons_self)
    have noDice := ((options.total_plain_eq_error_iff _ _ s fault).mp here).2
    rcases possible with zero | dice
    · rw [fails, zero] at calls
      simp at calls
    · exact absurd noDice dice

theorem sample_of_count_eq_zero (positive : options.samples ≠ 0) (noDice : spec.count = 0)
    (g : Generator) : Program.sample options spec g = .error (.nonPositiveCount 0) := by
  let sampler := options.total (.plain spec Generator.source)
  obtain ⟨n, more⟩ : ∃ n, options.samples.toNat = n + 1 :=
    Nat.exists_eq_succ_of_ne_zero fun zero => positive (UInt64.toNat_inj.mp zero)
  have first : (sampler g).1 = .error (.nonPositiveCount 0) :=
    (options.total_plain_eq_error_iff _ _ _ _).mpr ⟨rfl, noDice⟩
  have fails : sampler.results options.samples.toNat g =
      [].map .ok ++ .error (.nonPositiveCount 0) :: sampler.results n (sampler g).2 := by
    rw [more, Act.results, first]
    rfl
  exact congrArg Prod.fst (Act.sampleInto_of_results_error fails .empty)

/-- Dice that can all be sampled give an entry each, in order. -/
theorem exists_sampleAll {named : List (String × Spec)}
    (possible : ∀ pair ∈ named, options.samples = 0 ∨ pair.2.count ≠ 0) (g : Generator) :
    ∃ entries, sampleAll options g named = ⟨entries, none⟩ ∧
      entries.map (fun entry => (entry.title, entry.spec)) = named ∧
      ∀ entry ∈ entries, entry.sample.len = options.samples := by
  induction named generalizing g with
  | nil => exact ⟨[], rfl, rfl, by simp⟩
  | cons pair rest ih =>
      obtain ⟨title, spec⟩ := pair
      obtain ⟨here, others⟩ := List.forall_mem_cons.mp possible
      obtain ⟨sample, sampled, length⟩ := exists_sample here g.fork.1
      obtain ⟨entries, ends, titles, lengths⟩ := ih others g.fork.2
      refine ⟨⟨title, spec, sample⟩ :: entries, ?_, congrArg ((title, spec) :: ·) titles,
        List.forall_mem_cons.mpr ⟨length, lengths⟩⟩
      rw [sampleAll, sampled, ends]
      rfl

/-- After entries that end well come those of the rest, from the generator that is left. -/
theorem sampleAll_append {before : List (String × Spec)} {g : Generator}
    (ends : (sampleAll options g before).failure = none) (rest : List (String × Spec)) :
    sampleAll options g (before ++ rest) =
      let later := sampleAll options ((fun g => g.fork.2)^[before.length] g) rest
      ⟨(sampleAll options g before).entries ++ later.entries, later.failure⟩ := by
  induction before generalizing g with
  | nil => rfl
  | cons pair others ih =>
      obtain ⟨title, spec⟩ := pair
      obtain ⟨sample, sampled, step⟩ := sampleAll_cons ends
      have endsLater : (sampleAll options g.fork.2 others).failure = none := by
        rw [step] at ends
        exact ends
      rw [step, List.cons_append, sampleAll, sampled]
      dsimp only
      rw [ih endsLater]
      rfl

/-- Dice that cannot be sampled are the end, whatever comes after them. -/
theorem sampleAll_cons_of_count_eq_zero (positive : options.samples ≠ 0) (noDice : spec.count = 0)
    (title : String) (after : List (String × Spec)) (g : Generator) :
    sampleAll options g ((title, spec) :: after) =
      ⟨[], some (.fault (.nonPositiveCount 0))⟩ := by
  rw [sampleAll, sample_of_count_eq_zero positive noDice]

/-- What is sampled does not depend on the notations, the width or the report. -/
theorem sampleAll_congr {o₁ o₂ : Options} (bonus : o₁.bonus = o₂.bonus) (edge : o₁.edge = o₂.edge)
    (samples : o₁.samples = o₂.samples) (named : List (String × Spec)) (g : Generator) :
    sampleAll o₁ g named = sampleAll o₂ g named := by
  induction named generalizing g with
  | nil => rfl
  | cons pair rest ih =>
      rw [sampleAll, sampleAll, sample_congr bonus edge samples, ih]

end Sampling

section Run

variable {before after : List String} {text : String}

/-- A run whose first notation that cannot be read stands anywhere samples nothing. -/
theorem run_of_unreadable {cause : NotationError}
    (split : options.notations = before ++ text :: after)
    (readable : ∀ earlier ∈ before, ∃ spec, Notation.read earlier = .ok spec)
    (fails : Notation.read text = .error cause) (g : Generator) :
    run options g = ⟨[], some (.unreadable text cause)⟩ := by
  obtain ⟨named, reads, -, -⟩ := exists_specs readable
  rw [run, split, specs_append reads, specs_cons_of_error fails]
  rfl

/-- A run that reads all its notations and can sample all of them ends well. -/
theorem exists_run (readable : ∀ text ∈ options.notations, ∃ spec, Notation.read text = .ok spec)
    (possible : ∀ text ∈ options.notations, ∀ spec, Notation.read text = .ok spec →
      options.samples = 0 ∨ spec.count ≠ 0) (g : Generator) :
    ∃ entries, run options g = ⟨entries, none⟩ ∧ entries.map Entry.title = options.notations ∧
      ∀ entry ∈ entries, Notation.read entry.title = .ok entry.spec ∧
        entry.sample.len = options.samples := by
  obtain ⟨named, reads, titles, all⟩ := exists_specs readable
  have canSample : ∀ pair ∈ named, options.samples = 0 ∨ pair.2.count ≠ 0 :=
    fun pair mem => possible pair.1 (all pair mem).1 pair.2 (all pair mem).2
  obtain ⟨entries, ends, pairs, lengths⟩ := exists_sampleAll canSample g
  refine ⟨entries, ?_, ?_, fun entry mem => ⟨?_, lengths entry mem⟩⟩
  · rw [run, reads]
    exact ends
  · rw [← titles, ← pairs, List.map_map]
    rfl
  · exact (all (entry.title, entry.spec) (pairs ▸ List.mem_map_of_mem mem)).2

/-- The first notation without dice ends a run with the entries of a run of those before. -/
theorem run_of_count_eq_zero {spec : Spec}
    (readable : ∀ text ∈ options.notations, ∃ spec, Notation.read text = .ok spec)
    (split : options.notations = before ++ text :: after)
    (reads : Notation.read text = .ok spec) (noDice : spec.count = 0)
    (positive : options.samples ≠ 0)
    (dice : ∀ earlier ∈ before, ∀ spec, Notation.read earlier = .ok spec → spec.count ≠ 0)
    (g : Generator) :
    run options g = ⟨(run { options with notations := before } g).entries,
      some (.fault (.nonPositiveCount 0))⟩ := by
  rw [split] at readable
  obtain ⟨readableBefore, readableRest⟩ := List.forall_mem_append.mp readable
  obtain ⟨named, readsBefore, -, all⟩ := exists_specs readableBefore
  obtain ⟨more, readsAfter, -, -⟩ := exists_specs (List.forall_mem_cons.mp readableRest).2
  have canSample : ∀ pair ∈ named, options.samples = 0 ∨ pair.2.count ≠ 0 :=
    fun pair mem => Or.inr (dice pair.1 (all pair mem).1 pair.2 (all pair mem).2)
  have allRead : specs options.notations = .ok (named ++ (text, spec) :: more) := by
    rw [split, specs_append readsBefore, specs_cons_of_ok reads, readsAfter]
    rfl
  have shorter : run { options with notations := before } g = sampleAll options g named := by
    rw [run, readsBefore]
    apply sampleAll_congr <;> rfl
  obtain ⟨entries, ends, -, -⟩ := exists_sampleAll canSample g
  rw [shorter, run, allRead]
  dsimp only
  rw [sampleAll_append (congrArg Outcome.failure ends),
    sampleAll_cons_of_count_eq_zero positive noDice]
  exact congrArg (Outcome.mk · _) (List.append_nil _)

end Run

section Written

/-- What notation is made of needs no escapes. -/
theorem all_isPlain_of_read {text : String} {spec : Spec} (reads : Notation.read text = .ok spec) :
    text.toList.all Json.isPlain = true := by
  have digit {c : Char} (h : c.isDigit = true) : Json.isPlain c = true := by
    have all : NotationLanguage.digitChars.all Json.isPlain = true := by decide
    exact List.all_eq_true.mp all c ((NotationLanguage.isDigit_iff_mem_digitChars c).mp h)
  obtain ⟨count, hcount, sides, hsides, split, -⟩ := Notation.exists_runs_of_read reads
  rw [split, List.all_eq_true, List.forall_mem_append, List.forall_mem_cons]
  exact ⟨fun c mem => digit (NotationLanguage.forall_isDigit_of_mem_run hcount c mem), by decide,
    fun c mem => digit (NotationLanguage.forall_isDigit_of_mem_run hsides c mem)⟩

theorem lineBreak_not_mem_of_read {text : String} {spec : Spec}
    (reads : Notation.read text = .ok spec) : '\n' ∉ text.toList := fun mem =>
  absurd (List.all_eq_true.mp (all_isPlain_of_read reads) '\n' mem) (by decide)

/-- The lines of a block: the notation with the number of rolls, what is known of the mean and
the deviation, a row with the total, the share and the bar for each total, and an empty line. -/
def Entry.blockLines (options : Options) (entry : Entry) : List String :=
  let rows := Histogram.rows entry.sample options.width
  [entry.title ++ " (" ++ Decimal.text options.samples.toNat ++ " rolls)"]
    ++ entry.sample.summary.toList.map Histogram.summaryLine
    ++ ((options.expected entry.spec).toList.map fun summary =>
      "expected " ++ Histogram.summaryLine summary)
    ++ (rows.map fun row =>
      Histogram.padded (Histogram.labelWidth rows) (Decimal.signedText row.total.toInt)
        ++ row.percentage ++ String.ofList (List.replicate row.bar '#'))
    ++ [""]

/-- What a report says of an entry: the notation, the number of rolls, the mean and the
deviation of the sample and in theory, and the total and the share of each printed row. -/
def Entry.reported (options : Options) (entry : Entry) : Report.Item where
  title := entry.title
  samples := options.samples
  summary := entry.sample.summary.map Report.numbers
  expected := (options.expected entry.spec).map Report.numbers
  frequencies := (Histogram.rows entry.sample options.width).map fun row =>
    (row.total, Binary64.value? row.share)

theorem blockLines_eq {entry : Entry} (length : entry.sample.len = options.samples) :
    entry.blockLines options =
      Histogram.lines entry.title entry.sample (options.expected entry.spec) options.width ++
        [""] := by
  simp [Entry.blockLines, Histogram.lines, Histogram.header, Histogram.Row.line,
    Histogram.Row.percentage, Histogram.Row.label, String.append_assoc, length]

theorem block_eq {entry : Entry} (length : entry.sample.len = options.samples) :
    entry.block options = String.join ((entry.blockLines options).map (· ++ "\n")) := by
  rw [blockLines_eq length, List.map_append, Entry.block, Histogram.text]
  simp

theorem reported_eq {entry : Entry} (length : entry.sample.len = options.samples) :
    entry.reported options = .of (entry.distribution options) := by
  unfold Entry.reported Report.Item.of Entry.distribution Histogram.rows
  dsimp only
  rw [length, List.map_map]
  rfl

variable {entries : List Entry}
  (all : ∀ entry ∈ entries, Notation.read entry.title = .ok entry.spec ∧
    entry.sample.len = options.samples)
include all

/-- What is printed splits into the lines of the blocks, in order. -/
theorem splitOn_printed (failure : Option Failure) :
    (Outcome.printed options ⟨entries, failure⟩).toList.splitOn '\n' =
      (entries.flatMap (Entry.blockLines options)).map String.toList ++ [[]] := by
  have joined : Outcome.printed options ⟨entries, failure⟩ =
      String.join ((entries.flatMap (Entry.blockLines options)).map (· ++ "\n")) := by
    have blocks := List.map_congr_left fun entry mem => block_eq (all entry mem).2
    rw [Outcome.printed, blocks]
    simp [← String.toList_inj, String.toList_join, List.flatMap_map, List.flatMap_assoc,
      List.map_flatMap]
  rw [joined]
  refine Histogram.splitOn_lineBreak (List.forall_mem_flatMap.mpr fun entry mem => ?_)
  obtain ⟨reads, length⟩ := all entry mem
  rw [blockLines_eq length, List.forall_mem_append]
  exact ⟨Histogram.lineBreak_not_mem_lines (lineBreak_not_mem_of_read reads) _ _ _, by simp⟩

/-- A report that is written is read as what it says of the entries, in order. -/
theorem read?_report : ∃ content,
    Outcome.report? options Binary64.shortestText ⟨entries, none⟩ = some content ∧
      Report.read? content = some (entries.map (Entry.reported options)) := by
  refine ⟨_, rfl, ?_⟩
  rw [Report.read?_text, List.map_map]
  · exact congrArg some (List.map_congr_left fun entry mem => (reported_eq (all entry mem).2).symm)
  · exact List.forall_mem_map.mpr fun entry mem => all_isPlain_of_read (all entry mem).1

end Written

/-- A failure lets the blocks of the entries be printed, and nothing be written. -/
theorem effects_of_failure (entries : List Entry) (failure : Failure) :
    Effects.of options ⟨entries, some failure⟩ =
      ⟨String.join (entries.map (Entry.block options)), some failure, none⟩ := by
  unfold Effects.of
  cases options.output <;> rfl

/-- The message about a notation that cannot be read determines the notation. -/
theorem eq_of_message_eq {text other : String} {cause cause' : NotationError}
    (same : (Failure.unreadable other cause').message = (Failure.unreadable text cause).message) :
    other = text := Quoted.text_injective ((String.append_right_inj _).mp same)

/-- A run has one of three endings. If a notation cannot be read, the first such is the failure,
which the message tells from all others; nothing is printed or written. If all can be read and
rolls are asked for of a notation without dice, the failure is that of rolling no dice; what a
run of the notations before the first such prints, from the same generator, is printed, and
nothing is written. Otherwise there is no failure: the printed lines are those of one block for
each notation, in order, and the file, if one is asked for, is read as one item for each, in
order, with the number of rolls that was asked for and the shares of the printed rows. -/
theorem run_effects (options : Options) (g : Generator) :
    let effects := Effects.of options (run options g)
    (∃ before text after cause, options.notations = before ++ text :: after ∧
      (∀ earlier ∈ before, ∃ spec, Notation.read earlier = .ok spec) ∧
      Notation.read text = .error cause ∧
      let failure := Failure.unreadable text cause
      effects = ⟨"", some failure, none⟩ ∧
      failure.message = "Invalid dice notation " ++ Quoted.text text ∧
      ∀ other cause', (Failure.unreadable other cause').message = failure.message →
        other = text) ∨
    ((∀ text ∈ options.notations, ∃ spec, Notation.read text = .ok spec) ∧
      options.samples ≠ 0 ∧
      ∃ before text after spec, options.notations = before ++ text :: after ∧
      (∀ earlier ∈ before, ∀ spec, Notation.read earlier = .ok spec → spec.count ≠ 0) ∧
      Notation.read text = .ok spec ∧ spec.count = 0 ∧
      let failure := Failure.fault (.nonPositiveCount 0)
      let shorter := { options with notations := before }
      let earlier := Effects.of shorter (run shorter g)
      earlier.failure = none ∧ effects = ⟨earlier.printed, some failure, none⟩ ∧
      failure.message = "count must be positive (got 0)") ∨
    ((∀ text ∈ options.notations, ∃ spec, Notation.read text = .ok spec ∧
        (options.samples = 0 ∨ spec.count ≠ 0)) ∧
      let entries := (run options g).entries
      entries.map Entry.title = options.notations ∧
      (∀ entry ∈ entries, Notation.read entry.title = .ok entry.spec ∧
        entry.sample.len = options.samples) ∧
      effects.failure = none ∧
      effects.printed.toList.splitOn '\n' =
        (entries.flatMap (Entry.blockLines options)).map String.toList ++ [[]] ∧
      ∃ content, effects.written = options.output.map (·, content) ∧
        Report.read? content = some (entries.map (Entry.reported options))) := by
  -- the first notation that cannot be read decides, and if all can, the first without dice
  by_cases readable : ∀ text ∈ options.notations, ∃ spec, Notation.read text = .ok spec
  · by_cases possible : ∀ text ∈ options.notations, ∀ spec, Notation.read text = .ok spec →
      options.samples = 0 ∨ spec.count ≠ 0
    · obtain ⟨entries, ends, titles, all⟩ := exists_run readable possible g
      obtain ⟨content, report, reads⟩ := read?_report all
      rw [ends]
      refine .inr (.inr ⟨fun text mem => ?_, titles, all, rfl, splitOn_printed all none, content,
        ?_, reads⟩)
      · obtain ⟨spec, reads⟩ := readable text mem
        exact ⟨spec, reads, possible text mem spec reads⟩
      · rw [Effects.of, report]
        cases options.output <;> rfl
    · obtain ⟨before, text, after, split, earlier, here⟩ := exists_first_not possible
      simp only [not_forall, not_or, not_not] at here
      obtain ⟨spec, reads, positive, noDice⟩ := here
      have dice : ∀ earlier ∈ before, ∀ spec, Notation.read earlier = .ok spec → spec.count ≠ 0 :=
        fun text mem spec reads => (earlier text mem spec reads).resolve_left positive
      refine .inr (.inl ⟨readable, positive, before, text, after, spec, split, dice, reads, noDice,
        ?_, ?_, rfl⟩)
      · let shorter : Options := { options with notations := before }
        have readableBefore : ∀ text ∈ shorter.notations,
            ∃ spec, Notation.read text = .ok spec := by
          intro text mem
          exact readable text (split ▸ List.mem_append_left _ mem)
        obtain ⟨entries, ends, -, -⟩ := exists_run readableBefore earlier g
        rw [ends]
        rfl
      · rw [run_of_count_eq_zero readable split reads noDice positive dice, effects_of_failure]
        rfl
  · obtain ⟨before, text, after, split, earlier, here⟩ := exists_first_not readable
    cases fails : Notation.read text with
    | ok spec => exact absurd ⟨spec, fails⟩ here
    | error cause =>
        refine .inl ⟨before, text, after, cause, split, earlier, fails, ?_, rfl,
          fun _ _ => eq_of_message_eq⟩
        rw [run_of_unreadable split earlier fails, effects_of_failure]
        rfl

/-- Rolls of no dice are asked for after some of one die, and a report of both. -/
theorem run_effects_of_no_dice :
    let options : Options :=
      { notations := ["2d1", "0d6"], samples := 3, seed := some 7, output := some "out.json" }
    let effects := Effects.of options (run options (.ofSeed 7))
    effects.failure = some (.fault (.nonPositiveCount 0)) ∧ effects.written = none := by
  intro options effects
  have readsDice : Notation.read "2d1" = .ok ⟨2, 1⟩ := by decide
  have readsNone : Notation.read "0d6" = .ok ⟨0, 6⟩ := by decide
  rcases run_effects options (.ofSeed 7) with
    ⟨before, text, after, cause, split, -, fails, -⟩ |
    ⟨-, -, _, _, _, _, -, -, -, -, -, ends, -⟩ | ⟨possible, -⟩
  · have listed : text ∈ options.notations := split ▸ List.mem_append_cons_self
    rcases List.mem_pair.mp listed with rfl | rfl
    · rw [readsDice] at fails
      cases fails
    · rw [readsNone] at fails
      cases fails
  · change effects = _ at ends
    rw [ends]
    exact ⟨rfl, rfl⟩
  · obtain ⟨spec, reads, zero | dice⟩ := possible "0d6" (by simp [options])
    · exact absurd zero (by decide)
    · rw [readsNone] at reads
      cases reads
      exact absurd rfl dice

end Program

namespace Command

/-- With accepted arguments the command does the effects of a run, and nothing else. -/
theorem run_of_accepted {arguments : List String} {options : Options}
    (accepted : Arguments.read arguments = .ok options) :
    Command.run arguments =
      (do finish (.of options (Program.run options (← mainGenerator options)))) := by
  rw [Command.run, accepted]

end Command

end DiceSampling
