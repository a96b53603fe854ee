/-
**The commands of a session.**

A test of the suite types several commands into one shell.  The shell runs them one after the other;
what it shows is read in pieces that may end anywhere, and `_on_target` gives a command up at its
deadline and types the next one while the first is still running and what it prints is still to be
read.  Nothing but the markers tells whose output it is that comes back.

Main definitions:

* `Gate.Session`, `Gate.console` — the shell with its screen, and `_on_target` at the other end;
* `Gate.Quiet` — no marker of the suite stands in a text;
* `Gate.result` — what `_on_target` returns when its deadline passes now;
* `Gate.Session.Kept` — what every step of a session keeps.

Main results:

* `Gate.quiet_typedLine` — the echo of a command shows no marker, whichever of them it is to print;
* `Gate.eq_of_infix_completion` — a marker behind a quiet text is that marker;
* `Gate.session_sound` — **a marker in the result says that all that was typed has finished**, and
  `<marker>0` that the last command has succeeded, however many commands have been given up before;
* `Gate.seen_iff_finished` — **nothing is lost**: with all read that is on the screen, `_on_target`
  returns with its marker exactly when the last command has finished.
-/
import RialtoConformance.Lib.Lines
import RialtoConformance.Lib.Runs
import RialtoConformance.Gate.Console

set_option relaxedAutoImplicit false
set_option autoImplicit false

namespace Gate

open Text Runs

/-! ### The markers on the screen -/

/-- The markers of the suite do not run into each other, and the echo does not show one of them in
the part of another that it shows whole. -/
theorem markers_apart : ∀ needle ∈ markers, ∀ marker ∈ markers,
    Apart needle marker ∧ (needle <:+: marker → needle = marker) ∧
      ¬ needle <:+: marker.drop 3 := by
  decide +kernel

theorem markers_last : ∀ needle ∈ markers, needle.getLast? = some '_' := by
  decide +kernel

/-- **No marker of the suite stands in the text.** -/
def Quiet (text : List Char) : Prop := ∀ marker ∈ markers, ¬ marker <:+: text

instance (text : List Char) : Decidable (Quiet text) :=
  inferInstanceAs (Decidable (∀ marker ∈ markers, ¬ marker <:+: text))

theorem marker_ne_nil {marker : List Char} (h : marker ∈ markers) : marker ≠ [] :=
  List.ne_nil_of_length_pos (by have := (markers_plain marker h).long; omega)

/-- **The echo of a command shows no marker**, whichever of them it is to print. -/
theorem quiet_typedLine {before command marker : List Char} (hquiet : Quiet (before ++ command))
    (hmarker : marker ∈ markers) : Quiet (before ++ typedLine command marker) := by
  intro needle hneedle hin
  have hplain := markers_plain needle hneedle
  have hlong := hplain.long
  have hne := marker_ne_nil hneedle
  have hspace : ' ' ∉ needle := fun h => (hplain.plain _ h).1 rfl
  have hquote : '"' ∉ needle := fun h => (hplain.plain _ h).2.1 rfl
  have hshort : ∀ {word : List Char}, word.length ≤ 4 → ¬ needle <:+: word := fun h =>
    not_occurs_of_length_lt (by omega)
  -- the words of the typed line
  have hwords : before ++ typedLine command marker = before ++ command ++ ' ' :: ([';'] ++
      ' ' :: (['e', 'c', 'h', 'o'] ++ ' ' :: ([] ++ '"' :: (marker.take 3 ++ '"' :: ([] ++
        '"' :: (marker.drop 3 ++ '"' :: ['$', '?'])))))) := by
    simp only [typedLine, emit, List.append_assoc, List.cons_append, List.nil_append]
  rw [hwords, infix_append_cons_iff hne hspace, infix_append_cons_iff hne hspace,
    infix_append_cons_iff hne hspace, infix_append_cons_iff hne hquote,
    infix_append_cons_iff hne hquote, infix_append_cons_iff hne hquote,
    infix_append_cons_iff hne hquote] at hin
  rcases hin with hin | hin | hin | hin | hin | hin | hin | hin
  · exact hquiet needle hneedle hin
  · exact hshort (by simp) hin
  · exact hshort (by simp) hin
  · exact hshort (by simp) hin
  · exact hshort ((List.length_take_le 3 marker).trans (by omega)) hin
  · exact hshort (by simp) hin
  · exact (markers_apart needle hneedle marker hmarker).2.2 hin
  · exact hshort (by simp) hin

/-- `$?`, as the shell prints it. -/
def exitText (status : UInt8) : List Char := Nat.toDigits 10 status.toNat

theorem isDigit_of_mem_exitText {status : UInt8} {c : Char} (h : c ∈ exitText status) :
    c.isDigit = true :=
  Nat.isDigit_of_mem_toDigits (by omega) (by omega) h

/-- **A marker behind a quiet text is that marker**, the digits of a status notwithstanding. -/
theorem eq_of_infix_completion {before needle marker : List Char} {status : UInt8}
    (hquiet : Quiet before) (hneedle : needle ∈ markers) (hmarker : marker ∈ markers)
    (hin : needle <:+: before ++ (marker ++ exitText status)) : needle = marker := by
  obtain ⟨hapart, hsame, -⟩ := markers_apart needle hneedle marker hmarker
  have hlast : ∀ c, needle.getLast? = some c → c ∉ exitText status := by
    intro c hc hmem
    rw [markers_last needle hneedle] at hc
    obtain rfl := Option.some.inj hc
    exact absurd (isDigit_of_mem_exitText hmem) (by decide)
  rw [← List.append_assoc] at hin
  rcases infix_append_of_apart hapart
    (infix_of_infix_append hlast (marker_ne_nil hneedle) hin) with hin | hin
  · exact absurd hin (hquiet needle hneedle)
  · exact hsame hin

theorem eq_zero_of_infix_completion {before marker : List Char} {status : UInt8}
    (hquiet : Quiet before) (hmarker : marker ∈ markers)
    (hin : marker ++ ['0'] <:+: before ++ (marker ++ exitText status)) : status = 0 := by
  obtain ⟨hlength, -, hzero⟩ := statusText_facts ⟨[], marker, [], status⟩
  have hplain := markers_plain marker hmarker
  have hlong := hplain.long
  obtain ⟨front, back, hsplit⟩ := hin
  simp only [List.append_assoc] at hsplit
  have hshort : (exitText status).length < marker.length := Nat.lt_of_le_of_lt hlength (by omega)
  obtain ⟨-, hback⟩ :=
    eq_of_unbordered hplain.unbordered (hquiet marker hmarker) hshort hsplit.symm
  exact hzero (congrArg List.head? hback.symm)

/-! ### The session -/

/-- A command that has been typed, with its marker. -/
structure Typed where
  command : List Char
  marker : List Char
deriving DecidableEq

/-- **A session**: the shell with its screen, and `_on_target` at the other end. -/
structure Session where
  /-- What has been shown, up to the last line that the suite has typed or had printed. -/
  lines : List (List Char)
  /-- What has been shown since. -/
  line : List Char
  /-- The commands that have finished, and their status. -/
  finished : List (Typed × UInt8)
  /-- The commands that have been typed and have not finished, the running one first. -/
  waiting : List Typed
  /-- How much of what has been shown has been read. -/
  consumed : ℕ
  /-- What has been read for the last command typed, read by read. -/
  reads : List (List Char)
deriving DecidableEq

def Session.opened : Session := ⟨[], [], [], [], 0, []⟩

def Session.shown (s : Session) : List Char := joined '\n' s.lines ++ s.line

def Session.typed (s : Session) : List Typed := s.finished.map Prod.fst ++ s.waiting

/-- What happens in a session. -/
inductive Event
  /-- `session.write`: the console echoes the line. -/
  | write (typed : Typed)
  /-- The shell shows its prompt, or a command prints something. -/
  | print (text : List Char)
  /-- The running command ends, and the shell prints its marker and `$?`. -/
  | finish (status : UInt8)
  /-- `read_until` returns with so many characters. -/
  | read (count : ℕ)

/-- **A session step by step.**  Each marker is used once, and no marker is printed by a command. -/
def console : Machine Session Event Unit where
  step s
    | .write typed =>
        if typed.marker ∈ markers ∧ typed.marker ∉ s.typed.map Typed.marker ∧
            Quiet (s.line ++ typed.command) then
          some ({ s with
            lines := s.lines ++ [s.line ++ typedLine typed.command typed.marker]
            line := []
            waiting := s.waiting ++ [typed]
            reads := [] }, [])
        else none
    | .print text =>
        if Quiet (s.line ++ text) then some ({ s with line := s.line ++ text }, []) else none
    | .finish status =>
        match s.waiting with
        | [] => none
        | typed :: waiting =>
            some ({ s with
              lines := s.lines ++ [s.line ++ (typed.marker ++ exitText status)]
              line := []
              finished := s.finished ++ [(typed, status)]
              waiting := waiting }, [])
    | .read count =>
        match s.typed.getLast? with
        | none => none
        | some typed =>
            -- the loop goes on while the marker has not been read
            if (search typed.marker s.reads.flatten).isSome then none
            else
              let part := (s.shown.drop s.consumed).take count
              some ({ s with
                consumed := s.consumed + part.length
                reads := s.reads ++ [part] }, [])

def Ended.out : Ended → List Char
  | .seen out => out
  | .timedOut out => out
  | .waiting out => out

/-- **What `_on_target` returns** when its deadline passes now. -/
def result (marker : List Char) (reads : List (List Char)) : List Char :=
  (onTargetLoop marker (reads.map Poll.read ++ [.expired]) []).out

/-- The loop returns a beginning of what has been read, with the marker if that has been read. -/
theorem onTargetLoop_reads {marker : List Char} : ∀ (reads : List (List Char)) (out : List Char),
    (onTargetLoop marker (reads.map Poll.read ++ [.expired]) out).out <+: out ++ reads.flatten ∧
      (marker <:+: out ++ reads.flatten →
        marker <:+: (onTargetLoop marker (reads.map Poll.read ++ [.expired]) out).out) := by
  intro reads
  induction reads with
  | nil =>
      intro out
      have hout : (onTargetLoop marker [.expired] out).out = out := by
        rw [onTargetLoop]
        split_ifs <;> rfl
      rw [List.map_nil, List.nil_append, List.flatten_nil, List.append_nil, hout]
      exact ⟨List.prefix_rfl, id⟩
  | cons part reads ih =>
      intro out
      by_cases hin : marker <:+: out
      · rw [onTargetLoop_of_occurs hin]
        exact ⟨List.prefix_append _ _, fun _ => hin⟩
      · rw [List.map_cons, List.cons_append, onTargetLoop, if_neg (mt isSome_search_iff.1 hin),
          List.flatten_cons, ← List.append_assoc]
        exact ih _

theorem result_starts (marker : List Char) (reads : List (List Char)) :
    result marker reads <+: reads.flatten :=
  (onTargetLoop_reads reads []).1

theorem infix_result_iff {marker : List Char} {reads : List (List Char)} :
    marker <:+: result marker reads ↔ marker <:+: reads.flatten :=
  ⟨fun h => h.trans (result_starts marker reads).isInfix, (onTargetLoop_reads reads []).2⟩

/-! ### What every step keeps -/

/-- What has been read for the last command begins at `start`. -/
def Session.Since (s : Session) (start : ℕ) : Prop :=
  start ≤ s.consumed ∧ s.reads.flatten = (s.shown.take s.consumed).drop start

/-- **What every step of a session keeps.** -/
structure Session.Kept (s : Session) : Prop where
  marked : ∀ typed ∈ s.typed, typed.marker ∈ markers
  once : (s.typed.map Typed.marker).Nodup
  quiet : Quiet s.line
  /-- A line that shows a marker shows that a command has finished. -/
  told : ∀ line ∈ s.lines, Quiet line ∨ ∃ ended ∈ s.finished, ∃ before, Quiet before ∧
    line = before ++ (ended.1.marker ++ exitText ended.2)
  within : s.consumed ≤ s.shown.length
  /-- The marker of the last command is shown where its reads will come to it. -/
  ahead : ∃ start, s.Since start ∧ (s.waiting = [] → ∀ ended, s.finished.getLast? = some ended →
    ended.1.marker <:+: s.shown.drop start)

theorem kept_opened : Session.opened.Kept where
  marked := by
    intro typed h
    cases h
  once := List.nodup_nil
  quiet := by
    intro marker hmarker hin
    exact marker_ne_nil hmarker (List.infix_nil.1 hin)
  told := by
    intro line h
    cases h
  within := le_rfl
  ahead := by
    refine ⟨0, ⟨le_rfl, rfl⟩, fun _ ended h => ?_⟩
    cases h

theorem Session.Since.append {s s' : Session} {start : ℕ} {more : List Char} (h : s.Since start)
    (hwithin : s.consumed ≤ s.shown.length) (hshown : s'.shown = s.shown ++ more)
    (hconsumed : s'.consumed = s.consumed) (hreads : s'.reads = s.reads) : s'.Since start := by
  refine ⟨hconsumed ▸ h.1, ?_⟩
  rw [hshown, hconsumed, hreads, List.take_append_of_le_length hwithin]
  exact h.2

theorem kept_write {s : Session} {typed : Typed} (hk : s.Kept) (hmarker : typed.marker ∈ markers)
    (hnew : typed.marker ∉ s.typed.map Typed.marker) (hquiet : Quiet (s.line ++ typed.command)) :
    Session.Kept { s with
      lines := s.lines ++ [s.line ++ typedLine typed.command typed.marker]
      line := []
      waiting := s.waiting ++ [typed]
      reads := [] } := by
  have htyped : ∀ lines line reads, Session.typed { s with
      lines := lines, line := line, waiting := s.waiting ++ [typed], reads := reads } =
        s.typed ++ [typed] := by
    intro lines line reads
    exact (List.append_assoc ..).symm
  refine ⟨?_, ?_, kept_opened.quiet, ?_, ?_, ?_⟩
  · intro other hother
    rw [htyped, List.mem_append, List.mem_singleton] at hother
    rcases hother with hother | rfl
    · exact hk.marked other hother
    · exact hmarker
  · rw [htyped, List.map_append, List.map_singleton]
    exact List.nodup_append.2 ⟨hk.once, List.nodup_singleton _, fun a ha b hb => by
      rw [List.mem_singleton.1 hb]
      exact fun heq => hnew (heq ▸ ha)⟩
  · intro line hline
    rcases List.mem_append.1 hline with hline | hline
    · exact hk.told line hline
    · rw [List.mem_singleton.1 hline]
      exact Or.inl (quiet_typedLine hquiet hmarker)
  · refine hk.within.trans ?_
    simp only [Session.shown, joined_concat, List.length_append]
    omega
  · refine ⟨s.consumed, ⟨le_rfl, ?_⟩, fun h => ?_⟩
    · exact (List.drop_eq_nil_of_le (List.length_take_le _ _)).symm
    · exact absurd h (by simp)

theorem kept_print {s : Session} {text : List Char} (hk : s.Kept) (hquiet : Quiet (s.line ++ text)) :
    Session.Kept { s with line := s.line ++ text } := by
  have hshown : Session.shown { s with line := s.line ++ text } = s.shown ++ text :=
    (List.append_assoc ..).symm
  refine ⟨hk.marked, hk.once, hquiet, hk.told, ?_, ?_⟩
  · rw [hshown, List.length_append]
    exact hk.within.trans (Nat.le_add_right _ _)
  · obtain ⟨start, hsince, hahead⟩ := hk.ahead
    refine ⟨start, hsince.append hk.within hshown rfl rfl, fun hwaiting ended hended => ?_⟩
    rw [hshown, List.drop_append_of_le_length (hsince.1.trans hk.within)]
    exact (hahead hwaiting ended hended).trans (List.prefix_append _ _).isInfix

theorem kept_finish {s : Session} {typed : Typed} {waiting : List Typed} {status : UInt8}
    (hk : s.Kept) (hwaiting : s.waiting = typed :: waiting) :
    Session.Kept { s with
      lines := s.lines ++ [s.line ++ (typed.marker ++ exitText status)]
      line := []
      finished := s.finished ++ [(typed, status)]
      waiting := waiting } := by
  have htyped : ∀ lines line, Session.typed { s with
      lines := lines, line := line, finished := s.finished ++ [(typed, status)],
      waiting := waiting } = s.typed := by
    intro lines line
    simp only [Session.typed, List.map_append, List.map_singleton, hwaiting, List.append_assoc,
      List.singleton_append]
  have hshown : ∀ finished waiting, Session.shown { s with
      lines := s.lines ++ [s.line ++ (typed.marker ++ exitText status)], line := [],
      finished := finished, waiting := waiting } =
        s.shown ++ (typed.marker ++ (exitText status ++ ['\n'])) := by
    intro finished waiting
    simp only [Session.shown, joined_concat, List.append_assoc, List.append_nil]
  refine ⟨?_, ?_, kept_opened.quiet, ?_, ?_, ?_⟩
  · rw [htyped]
    exact hk.marked
  · rw [htyped]
    exact hk.once
  · intro line hline
    rcases List.mem_append.1 hline with hline | hline
    · rcases hk.told line hline with hquiet | ⟨ended, hended, hrest⟩
      · exact Or.inl hquiet
      · exact Or.inr ⟨ended, List.mem_append_left _ hended, hrest⟩
    · rw [List.mem_singleton.1 hline]
      exact Or.inr ⟨(typed, status), by simp, s.line, hk.quiet, rfl⟩
  · rw [hshown, List.length_append]
    exact hk.within.trans (Nat.le_add_right _ _)
  · obtain ⟨start, hsince, -⟩ := hk.ahead
    refine ⟨start, hsince.append hk.within (hshown _ _) rfl rfl, fun _ ended hended => ?_⟩
    rw [List.getLast?_concat] at hended
    obtain rfl := Option.some.inj hended
    rw [hshown, List.drop_append_of_le_length (hsince.1.trans hk.within)]
    exact (List.prefix_append _ _).isInfix.trans (List.suffix_append _ _).isInfix

theorem kept_read {s : Session} (hk : s.Kept) (count : ℕ) :
    Session.Kept { s with
      consumed := s.consumed + ((s.shown.drop s.consumed).take count).length
      reads := s.reads ++ [(s.shown.drop s.consumed).take count] } := by
  have hle : s.consumed + ((s.shown.drop s.consumed).take count).length ≤ s.shown.length := by
    have := hk.within
    rw [List.length_take, List.length_drop]
    omega
  refine ⟨hk.marked, hk.once, hk.quiet, hk.told, hle, ?_⟩
  obtain ⟨start, ⟨hstart, hreads⟩, hahead⟩ := hk.ahead
  refine ⟨start, ⟨hstart.trans (Nat.le_add_right _ _), ?_⟩, hahead⟩
  have hpart : s.shown.take (s.consumed + ((s.shown.drop s.consumed).take count).length) =
      s.shown.take s.consumed ++ (s.shown.drop s.consumed).take count := by
    rw [List.take_add, ← List.prefix_iff_eq_take.1 (List.take_prefix count _)]
  calc (s.reads ++ [(s.shown.drop s.consumed).take count]).flatten
      = (s.shown.take s.consumed).drop start ++ (s.shown.drop s.consumed).take count := by
        rw [List.flatten_append, hreads, List.flatten_singleton]
    _ = (s.shown.take s.consumed ++ (s.shown.drop s.consumed).take count).drop start := by
        rw [List.drop_append_of_le_length]
        rw [List.length_take, Nat.min_eq_left hk.within]
        exact hstart
    _ = _ := by rw [← hpart]; rfl

/-- **What a step keeps.** -/
theorem kept_step {s s' : Session} {event : Event} {o : List Unit} (hk : s.Kept)
    (h : console.step s event = some (s', o)) : s'.Kept := by
  cases event with
  | write typed =>
      simp only [console, Option.ite_none_right_eq_some, Option.some.injEq, Prod.mk.injEq] at h
      obtain ⟨⟨hmarker, hnew, hquiet⟩, rfl, -⟩ := h
      exact kept_write hk hmarker hnew hquiet
  | print text =>
      simp only [console, Option.ite_none_right_eq_some, Option.some.injEq, Prod.mk.injEq] at h
      obtain ⟨hquiet, rfl, -⟩ := h
      exact kept_print hk hquiet
  | finish status =>
      cases hwaiting : s.waiting with
      | nil => simp [console, hwaiting] at h
      | cons typed waiting =>
          simp only [console, hwaiting, Option.some.injEq, Prod.mk.injEq] at h
          obtain ⟨rfl, -⟩ := h
          exact kept_finish hk hwaiting
  | read count =>
      cases hlast : s.typed.getLast? with
      | none => simp [console, hlast] at h
      | some typed =>
          simp only [console, hlast, Option.ite_none_left_eq_some, Option.some.injEq,
            Prod.mk.injEq] at h
          obtain ⟨-, rfl, -⟩ := h
          exact kept_read hk count

theorem kept_run {events : List Event} {s : Session} {o : List Unit}
    (hrun : console.run .opened events = some (s, o)) : s.Kept :=
  Machine.run_invariant (fun _ _ _ _ hk h => kept_step hk h) kept_opened hrun

/-! ### What the markers say -/

/-- A marker on the screen is that of a command that has finished, and a zero behind it the status
of that command. -/
theorem finished_of_shown {s : Session} {needle : List Char} (hk : s.Kept)
    (hneedle : needle ∈ markers) (hin : needle <:+: s.shown) :
    ∃ ended ∈ s.finished, ended.1.marker = needle ∧
      (needle ++ ['0'] <:+: s.shown → ∃ zero ∈ s.finished, zero.1.marker = needle ∧ zero.2 = 0) := by
  have hplain := markers_plain needle hneedle
  have hline : '\n' ∉ needle := fun h => (hplain.plain _ h).2.2 rfl
  have hzeroLine : '\n' ∉ needle ++ ['0'] := by
    rw [List.mem_append, List.mem_singleton, not_or]
    exact ⟨hline, by decide⟩
  -- a line that shows the marker is that of a command
  have hended : ∀ line ∈ s.lines, needle <:+: line → ∃ ended ∈ s.finished,
      ended.1.marker = needle ∧ ∃ before, Quiet before ∧
        line = before ++ (ended.1.marker ++ exitText ended.2) := by
    intro line hline hin
    rcases hk.told line hline with hquiet | ⟨ended, hended, before, hbefore, rfl⟩
    · exact absurd hin (hquiet needle hneedle)
    · have hmarked : ended.1.marker ∈ markers :=
        hk.marked _ (List.mem_append_left _ (List.mem_map_of_mem hended))
      exact ⟨ended, hended, (eq_of_infix_completion hbefore hneedle hmarked hin).symm, before,
        hbefore, rfl⟩
  rcases (infix_joined_iff (marker_ne_nil hneedle) hline).1 hin with ⟨line, hmem, hin⟩ | hin
  · obtain ⟨ended, hfinished, hmarker, -⟩ := hended line hmem hin
    refine ⟨ended, hfinished, hmarker, fun hzero => ?_⟩
    rcases (infix_joined_iff (by simp) hzeroLine).1 hzero with ⟨other, hother, hzero⟩ | hzero
    · obtain ⟨zero, hzeroFinished, rfl, before, hbefore, rfl⟩ :=
        hended other hother ((List.prefix_append _ _).isInfix.trans hzero)
      exact ⟨zero, hzeroFinished, rfl, eq_zero_of_infix_completion hbefore hneedle hzero⟩
    · exact absurd ((List.prefix_append _ _).isInfix.trans hzero) (hk.quiet needle hneedle)
  · exact absurd hin (hk.quiet needle hneedle)

/-- When the last command typed has finished, so has all that was typed before it. -/
theorem waiting_eq_nil {s : Session} {typed : Typed} {ended : Typed × UInt8} (hk : s.Kept)
    (hlast : s.typed.getLast? = some typed) (hended : ended ∈ s.finished)
    (hmarker : ended.1.marker = typed.marker) :
    s.waiting = [] ∧ s.finished.getLast? = some (typed, ended.2) := by
  have honce := hk.once
  rw [Session.typed, List.map_append, List.nodup_append] at honce
  obtain ⟨hfinished, -, hdisjoint⟩ := honce
  have hin : ended.1.marker ∈ (s.finished.map Prod.fst).map Typed.marker :=
    List.mem_map_of_mem (List.mem_map_of_mem hended)
  have hwaiting : s.waiting = [] := by
    by_contra hne
    rw [Session.typed, List.getLast?_append_of_ne_nil _ hne] at hlast
    exact hdisjoint _ hin _ (List.mem_map_of_mem (List.mem_of_getLast? hlast)) hmarker
  refine ⟨hwaiting, ?_⟩
  rw [Session.typed, hwaiting, List.append_nil, List.getLast?_map] at hlast
  obtain ⟨last, hend, rfl⟩ := Option.map_eq_some_iff.1 hlast
  rw [List.map_map] at hfinished
  obtain rfl := List.inj_on_of_nodup_map hfinished hended (List.mem_of_getLast? hend) hmarker
  exact hend

/-- **A marker in the result says that all that was typed has finished**, and `<marker>0` that the
last command has succeeded, however many commands have been given up before. -/
theorem session_sound {events : List Event} {s : Session} {o : List Unit} {typed : Typed}
    (hrun : console.run .opened events = some (s, o)) (hlast : s.typed.getLast? = some typed) :
    (typed.marker <:+: result typed.marker s.reads → s.waiting = []) ∧
      (typed.marker ++ ['0'] <:+: result typed.marker s.reads →
        s.waiting = [] ∧ s.finished.getLast? = some (typed, 0)) := by
  have hk := kept_run hrun
  have hmarked : typed.marker ∈ markers := hk.marked typed (List.mem_of_getLast? hlast)
  -- what is returned stands on the screen
  have hshown : result typed.marker s.reads <:+: s.shown := by
    obtain ⟨start, ⟨-, hreads⟩, -⟩ := hk.ahead
    refine (result_starts typed.marker s.reads).isInfix.trans ?_
    rw [hreads]
    exact (List.drop_suffix _ _).isInfix.trans (List.take_prefix _ _).isInfix
  constructor
  · intro hin
    obtain ⟨ended, hended, hmarker, -⟩ := finished_of_shown hk hmarked (hin.trans hshown)
    exact (waiting_eq_nil hk hlast hended hmarker).1
  · intro hzero
    have hin : typed.marker <:+: s.shown :=
      (List.prefix_append _ _).isInfix.trans (hzero.trans hshown)
    obtain ⟨-, -, -, hstatus⟩ := finished_of_shown hk hmarked hin
    obtain ⟨ended, hended, hmarker, hend⟩ := hstatus (hzero.trans hshown)
    rw [← hend]
    exact waiting_eq_nil hk hlast hended hmarker

/-- **Nothing is lost**: with all read that is on the screen, `_on_target` returns with its marker
exactly when the last command has finished. -/
theorem seen_iff_finished {events : List Event} {s : Session} {o : List Unit} {typed : Typed}
    (hrun : console.run .opened events = some (s, o)) (hlast : s.typed.getLast? = some typed)
    (hall : s.consumed = s.shown.length) :
    typed.marker <:+: result typed.marker s.reads ↔ s.waiting = [] := by
  refine ⟨(session_sound hrun hlast).1, fun hwaiting => ?_⟩
  obtain ⟨start, ⟨-, hreads⟩, hahead⟩ := (kept_run hrun).ahead
  rw [Session.typed, hwaiting, List.append_nil, List.getLast?_map] at hlast
  obtain ⟨ended, hended, rfl⟩ := Option.map_eq_some_iff.1 hlast
  rw [infix_result_iff, hreads, hall, List.take_length]
  exact hahead hwaiting ended hended

/-- The binary is given up while it runs, and the report is collected when it has ended. -/
def lateRun : List Event :=
  [.print ['$', ' '], .write ⟨['b', 'i', 'n'], "RUN_DONE_".toList⟩, .print ['o', 'k'], .read 20,
    .write ⟨['c', 'p'], "COLLECT_DONE_".toList⟩, .finish 1, .print ['$', ' '], .read 50,
    .finish 0, .read 100]

private theorem lateRun_facts : ∃ s, console.run .opened lateRun = some (s, []) ∧
    s.typed.getLast? = some ⟨['c', 'p'], "COLLECT_DONE_".toList⟩ ∧
      s.consumed = s.shown.length ∧
        "COLLECT_DONE_".toList ++ ['0'] <:+: result "COLLECT_DONE_".toList s.reads :=
  ⟨_, rfl, by decide +kernel, by decide +kernel, by decide +kernel⟩

/-- The copying has succeeded in it. -/
theorem session_lateRun : ∃ s, console.run .opened lateRun = some (s, []) ∧ s.waiting = [] ∧
    s.finished.getLast? = some (⟨['c', 'p'], "COLLECT_DONE_".toList⟩, 0) := by
  obtain ⟨s, hrun, hlast, -, hzero⟩ := lateRun_facts
  exact ⟨s, hrun, (session_sound hrun hlast).2 hzero⟩

/-- Its marker has come because it has ended. -/
theorem seen_lateRun : ∃ s, console.run .opened lateRun = some (s, []) ∧
    ("COLLECT_DONE_".toList <:+: result "COLLECT_DONE_".toList s.reads ↔ s.waiting = []) := by
  obtain ⟨s, hrun, hlast, hall, -⟩ := lateRun_facts
  exact ⟨s, hrun, seen_iff_finished hrun hlast hall⟩

end Gate
