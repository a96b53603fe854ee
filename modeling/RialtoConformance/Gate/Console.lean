/-
**A command on the console.**

`_on_target` types a command and a second one that prints a marker and the exit status, and reads
until the marker has come.  The shell echoes the typed line first; there the marker stands in two
pieces.  The loop looks for the marker and not for what follows it, and a read may end anywhere.

Main definitions:

* `Gate.typedLine`, `Gate.Dialogue` — what is typed, and what the console sends back;
* `Gate.onTargetLoop` — the loop of `_on_target`;
* `Gate.Framed` — the result holds what the command printed, the marker and the whole status;
* `Gate.NeverCutShort` — no read ends between the marker and the end of the status.

Main results:

* `Gate.search_echo` — **the echo hides the marker**, unless the command itself holds it;
* `Gate.markers_plain` — the markers of the suite are such that it does;
* `Gate.search_marker` — where the marker stands in the stream for the first time;
* `Gate.onTargetLoop_seen` — the loop returns behind the first read that brings the marker;
* `Gate.framed_iff` — **when the result is what it is documented to be**.
-/
import RialtoConformance.Lib.Text

set_option relaxedAutoImplicit false
set_option autoImplicit false

namespace Gate

open Text

/-! ### What is typed, and what comes back -/

/-- `echo "\x7bmarker[:3]\x7d""\x7bmarker[3:]\x7d"$?`: the marker is sent as two shell literals. -/
def emit (marker : List Char) : List Char :=
  ['e', 'c', 'h', 'o', ' ', '"'] ++ marker.take 3 ++ ['"', '"'] ++ marker.drop 3 ++ ['"', '$', '?']

/-- The line that `_on_target` types. -/
def typedLine (command marker : List Char) : List Char := command ++ [' ', ';', ' '] ++ emit marker

/-- A command with its marker, what it prints and its exit status. -/
structure Dialogue where
  command : List Char
  marker : List Char
  output : List Char
  status : UInt8

def Dialogue.echo (d : Dialogue) : List Char := typedLine d.command d.marker ++ ['\n']

/-- What the console sends until the command has finished. -/
def Dialogue.running (d : Dialogue) : List Char := d.echo ++ d.output

/-- `$?`. -/
def Dialogue.statusText (d : Dialogue) : List Char := Nat.toDigits 10 d.status.toNat

def Dialogue.completion (d : Dialogue) : List Char := d.marker ++ d.statusText

/-- **All that the console sends.** -/
def Dialogue.stream (d : Dialogue) : List Char := d.running ++ (d.completion ++ ['\n'])

/-! ### The loop -/

/-- A round of the loop: the deadline has passed, or `read_until` returns. -/
inductive Poll
  | expired
  | read (text : List Char)

def Poll.text : Poll → List Char
  | .expired => []
  | .read part => part

def received (polls : List Poll) : List Char := polls.flatMap Poll.text

/-- How the loop stands. -/
inductive Ended
  /-- It has returned with the marker in the output. -/
  | seen (out : List Char)
  /-- It has returned at its deadline. -/
  | timedOut (out : List Char)
  /-- It goes on reading. -/
  | waiting (out : List Char)

/-- **The loop of `_on_target`.** -/
def onTargetLoop (marker : List Char) : List Poll → List Char → Ended
  | [], out => if (search marker out).isSome then .seen out else .waiting out
  | .expired :: _, out => if (search marker out).isSome then .seen out else .timedOut out
  | .read part :: polls, out =>
      if (search marker out).isSome then .seen out else onTargetLoop marker polls (out ++ part)

/-- **What `_on_target` is documented to return**: the command has finished, so that what stands
behind its output has begun to come, and the marker stands in the result with the whole status
behind it. -/
structure Framed (d : Dialogue) (out : List Char) : Prop where
  finished : d.running.length < out.length
  complete : d.completion <:+: out

/-- Where the marker has been read for the first time. -/
def Dialogue.seenAt (d : Dialogue) : ℕ :=
  match search d.marker d.command with
  | some i => i + d.marker.length
  | none => d.running.length + d.marker.length

/-- Where all has been read that the result is to hold. -/
def Dialogue.doneAt (d : Dialogue) : ℕ :=
  if d.completion <:+: d.command then d.running.length + 1
  else d.running.length + d.completion.length

/-- **No read ends between the marker and the end of the status.** -/
def NeverCutShort (d : Dialogue) (polls : List Poll) : Prop :=
  ∀ i, ¬ (d.seenAt ≤ (received (polls.take i)).length ∧
    (received (polls.take i)).length < d.doneAt)

/-- A marker as the suite uses them. -/
structure PlainMarker (marker : List Char) : Prop where
  long : 4 < marker.length
  plain : ∀ c ∈ marker, c ≠ ' ' ∧ c ≠ '"' ∧ c ≠ '\n'
  unbordered : Unbordered marker

def isPlain (c : Char) : Bool := c ≠ ' ' && c ≠ '"' && c ≠ '\n'

theorem plainMarker_iff {marker : List Char} : PlainMarker marker ↔
    4 < marker.length ∧ marker.all isPlain = true ∧ Unbordered marker := by
  have hall : marker.all isPlain = true ↔ ∀ c ∈ marker, c ≠ ' ' ∧ c ≠ '"' ∧ c ≠ '\n' := by
    rw [List.all_eq_true]
    simp only [isPlain, Bool.and_eq_true, decide_eq_true_eq, and_assoc]
  rw [hall]
  exact ⟨fun h => ⟨h.long, h.plain, h.unbordered⟩, fun h => ⟨h.1, h.2.1, h.2.2⟩⟩

instance (marker : List Char) : Decidable (PlainMarker marker) :=
  decidable_of_iff' _ plainMarker_iff

def markers : List (List Char) :=
  ["UNPACK_DONE_", "DEPLOY_DONE_", "LAUNCH_DONE_", "RESULTS_DIR_DONE_", "RUN_DONE_",
    "COLLECT_DONE_", "TEARDOWN_DONE_"].map String.toList

/-- **The markers of the suite** are long enough, have nothing in them that ends a word, and do not
end as they begin. -/
theorem markers_plain : ∀ marker ∈ markers, PlainMarker marker := by
  decide +kernel

/-! ### The echo -/

theorem not_occurs_of_length_lt {needle text : List Char} (h : text.length < needle.length) :
    ¬ needle <:+: text := fun hin => absurd hin.length_le (by omega)

/-- **The echo hides the marker**, and what begins with it, unless the command holds it. -/
theorem search_echo {d : Dialogue} {needle rest : List Char} (hlong : 4 < needle.length)
    (hmarker : d.marker.length ≤ needle.length)
    (hplain : ∀ c ∈ needle, c ≠ ' ' ∧ c ≠ '"' ∧ c ≠ '\n') (hcommand : ¬ needle <:+: d.command) :
    search needle (d.echo ++ rest) = (search needle rest).map (d.echo.length + ·) := by
  have hne : needle ≠ [] := List.ne_nil_of_length_pos (by omega)
  have hspace : ' ' ∉ needle := fun h => (hplain _ h).1 rfl
  have hquote : '"' ∉ needle := fun h => (hplain _ h).2.1 rfl
  have hline : '\n' ∉ needle := fun h => (hplain _ h).2.2 rfl
  -- the words of the typed line
  have hwords : d.echo ++ rest = d.command ++ ' ' :: ([';'] ++ ' ' :: (['e', 'c', 'h', 'o'] ++
      ' ' :: ([] ++ '"' :: (d.marker.take 3 ++ '"' :: ([] ++ '"' :: (d.marker.drop 3 ++
        '"' :: (['$', '?'] ++ '\n' :: rest))))))) := by
    simp only [Dialogue.echo, typedLine, emit, List.append_assoc, List.cons_append,
      List.nil_append]
  have hlength : d.echo.length =
      d.command.length + (d.marker.take 3).length + (d.marker.drop 3).length + 15 := by
    simp only [Dialogue.echo, typedLine, emit, List.length_append, List.length_cons,
      List.length_nil]
    omega
  have hshort : ∀ {word : List Char}, word.length ≤ 4 → ¬ needle <:+: word := fun h =>
    not_occurs_of_length_lt (by omega)
  have hdrop : ¬ needle <:+: d.marker.drop 3 := by
    refine not_occurs_of_length_lt ?_
    rw [List.length_drop]
    omega
  have htake : ¬ needle <:+: d.marker.take 3 :=
    hshort ((List.length_take_le 3 d.marker).trans (by omega))
  rw [hwords, search_append_cons hne hspace hcommand, search_append_cons hne hspace (hshort (by simp)),
    search_append_cons hne hspace (hshort (by simp)), search_append_cons hne hquote (hshort (by simp)),
    search_append_cons hne hquote htake, search_append_cons hne hquote (hshort (by simp)),
    search_append_cons hne hquote hdrop, search_append_cons hne hline (hshort (by simp)), hlength]
  simp only [Option.map_map]
  congr 1
  funext n
  simp only [Function.comp_apply, List.length_cons, List.length_nil]
  omega

/-! ### The status -/

private theorem toDigits_of_byte :
    ∀ n : Fin 256, (Nat.toDigits 10 n).length ≤ 3 ∧ Nat.toDigits 10 n ≠ [] ∧
      ((Nat.toDigits 10 n).head? = some '0' → n = 0) := by
  decide +kernel

/-- A status has at most three digits, and only the status zero begins with a zero. -/
theorem statusText_facts (d : Dialogue) :
    d.statusText.length ≤ 3 ∧ d.statusText ≠ [] ∧
      (d.statusText.head? = some '0' → d.status = 0) := by
  obtain ⟨hlength, hne, hzero⟩ := toDigits_of_byte ⟨d.status.toNat, d.status.toNat_lt⟩
  refine ⟨hlength, hne, fun hhead => ?_⟩
  have := congrArg Fin.val (hzero hhead)
  exact UInt8.toNat_inj.1 this

/-! ### The stream -/

theorem plain_completion {d : Dialogue} (hmarker : PlainMarker d.marker) :
    ∀ c ∈ d.completion, c ≠ ' ' ∧ c ≠ '"' ∧ c ≠ '\n' := by
  intro c hc
  rcases List.mem_append.1 hc with hc | hc
  · exact hmarker.plain c hc
  · have hdigit : c.isDigit = true :=
      Nat.isDigit_of_mem_toDigits (by omega) (by omega) hc
    refine ⟨?_, ?_, ?_⟩
    · rintro rfl
      exact absurd hdigit (by decide)
    · rintro rfl
      exact absurd hdigit (by decide)
    · rintro rfl
      exact absurd hdigit (by decide)

theorem stream_eq (d : Dialogue) : d.stream =
    d.echo ++ (d.output ++ (d.marker ++ (d.statusText ++ ['\n']))) := by
  simp only [Dialogue.stream, Dialogue.running, Dialogue.completion, List.append_assoc]

theorem command_prefix_echo (d : Dialogue) : d.command <+: d.echo :=
  ⟨[' ', ';', ' '] ++ emit d.marker ++ ['\n'], by simp [Dialogue.echo, typedLine]⟩

/-- **The first place where the marker stands in the stream.** -/
theorem search_marker {d : Dialogue} (hmarker : PlainMarker d.marker)
    (houtput : ¬ d.marker <:+: d.output) :
    ∃ i, search d.marker d.stream = some i ∧ d.seenAt = i + d.marker.length := by
  have hne : d.marker ≠ [] := List.ne_nil_of_length_pos (by have := hmarker.long; omega)
  rw [Dialogue.seenAt]
  cases hcommand : search d.marker d.command with
  | some i =>
      refine ⟨i, ?_, rfl⟩
      obtain ⟨rest, hrest⟩ := command_prefix_echo d
      rw [stream_eq, ← hrest, List.append_assoc]
      exact search_append_of_some hne hcommand
  | none =>
      refine ⟨d.running.length, ?_, rfl⟩
      have hnot : ¬ d.marker <:+: d.command := search_eq_none_iff.1 hcommand
      rw [stream_eq, search_echo hmarker.long le_rfl hmarker.plain hnot,
        search_append_of_unbordered hmarker.unbordered houtput, Dialogue.running,
        List.length_append]
      rfl

theorem search_completion {d : Dialogue} (hmarker : PlainMarker d.marker)
    (houtput : ¬ d.marker <:+: d.output) (hcommand : ¬ d.completion <:+: d.command) :
    search d.completion d.stream = some d.running.length := by
  have hlength : d.marker.length ≤ d.completion.length := by
    rw [Dialogue.completion, List.length_append]
    omega
  have htail : search d.completion (d.output ++ (d.marker ++ (d.statusText ++ ['\n']))) =
      some d.output.length := by
    refine search_append_of_begins
      (search_append_of_unbordered hmarker.unbordered houtput) ?_
    rw [List.drop_left]
    exact ⟨['\n'], List.append_assoc ..⟩
  rw [stream_eq, search_echo (hmarker.long.trans_le hlength) hlength (plain_completion hmarker)
    hcommand, htail, Dialogue.running, List.length_append]
  rfl

theorem framed_take_iff {d : Dialogue} (hmarker : PlainMarker d.marker)
    (houtput : ¬ d.marker <:+: d.output) (p : ℕ) :
    Framed d (d.stream.take p) ↔ d.doneAt ≤ p := by
  have hpos : 0 < d.completion.length := by
    have := hmarker.long
    rw [Dialogue.completion, List.length_append]
    omega
  have hfinished : d.running.length < (d.stream.take p).length ↔ d.running.length + 1 ≤ p := by
    rw [List.length_take, Dialogue.stream, List.length_append, List.length_append]
    omega
  have hframed : Framed d (d.stream.take p) ↔
      d.running.length < (d.stream.take p).length ∧ d.completion <:+: d.stream.take p :=
    ⟨fun h => ⟨h.finished, h.complete⟩, fun h => ⟨h.1, h.2⟩⟩
  rw [hframed, hfinished, Dialogue.doneAt]
  split_ifs with hcommand
  · -- the typed command shows the marker with the status
    refine and_iff_left_of_imp fun hle => ?_
    have hbegins : d.command <+: d.stream.take p := by
      have hrunning : d.running <+: d.stream.take p :=
        List.prefix_take_iff.2 ⟨List.prefix_append d.running _, by omega⟩
      exact ((command_prefix_echo d).trans (List.prefix_append d.echo d.output)).trans hrunning
    exact hcommand.trans hbegins.isInfix
  · rw [infix_take_iff (List.ne_nil_of_length_pos hpos)
      (search_completion hmarker houtput hcommand)]
    omega

/-! ### When the loop returns -/

theorem onTargetLoop_of_occurs {marker : List Char} {polls : List Poll} {out : List Char}
    (h : marker <:+: out) : onTargetLoop marker polls out = .seen out := by
  have hsome : (search marker out).isSome = true := isSome_search_iff.2 h
  cases polls with
  | nil => exact if_pos hsome
  | cons poll polls =>
      cases poll with
      | expired => exact if_pos hsome
      | read part => exact if_pos hsome

/-- The loop returns behind the first round that brings the marker. -/
theorem onTargetLoop_seen {marker : List Char} : ∀ {polls : List Poll} {out result : List Char},
    onTargetLoop marker polls out = .seen result →
      ∃ i, result = out ++ received (polls.take i) ∧ marker <:+: result ∧
        ∀ j < i, ¬ marker <:+: out ++ received (polls.take j) := by
  have hnow : ∀ {polls : List Poll} {out result : List Char}, marker <:+: out →
      onTargetLoop marker polls out = .seen result →
        ∃ i, result = out ++ received (polls.take i) ∧ marker <:+: result ∧
          ∀ j < i, ¬ marker <:+: out ++ received (polls.take j) := by
    intro polls out result hin h
    rw [onTargetLoop_of_occurs hin] at h
    obtain rfl := Ended.seen.inj h
    exact ⟨0, (List.append_nil out).symm, hin, by omega⟩
  intro polls
  induction polls with
  | nil =>
      intro out result h
      by_cases hin : marker <:+: out
      · exact hnow hin h
      · rw [onTargetLoop, if_neg (mt isSome_search_iff.1 hin)] at h
        cases h
  | cons poll polls ih =>
      intro out result h
      by_cases hin : marker <:+: out
      · exact hnow hin h
      · cases poll with
        | expired =>
            rw [onTargetLoop, if_neg (mt isSome_search_iff.1 hin)] at h
            cases h
        | read part =>
            -- the loop goes on with what has been read
            rw [onTargetLoop, if_neg (mt isSome_search_iff.1 hin)] at h
            obtain ⟨i, hresult, hseen, hbefore⟩ := ih h
            have hcons : ∀ j, out ++ received ((Poll.read part :: polls).take (j + 1)) =
                out ++ part ++ received (polls.take j) := by
              intro j
              rw [List.append_assoc]
              rfl
            refine ⟨i + 1, hresult.trans (hcons i).symm, hseen, ?_⟩
            intro j hj
            cases j with
            | zero => rwa [List.take_zero, received, List.flatMap_nil, List.append_nil]
            | succ j =>
                rw [hcons]
                exact hbefore j (by omega)

theorem received_take {d : Dialogue} {polls : List Poll} (hstream : received polls <+: d.stream)
    (i : ℕ) : received (polls.take i) =
      d.stream.take (received (polls.take i)).length := by
  have hpart : received (polls.take i) <+: received polls := by
    refine ⟨received (polls.drop i), ?_⟩
    rw [received, received, ← List.flatMap_append, List.take_append_drop]
    rfl
  exact List.prefix_iff_eq_take.1 (hpart.trans hstream)

/-- **When the result is what it is documented to be**: the loop having returned with the marker,
exactly when no read has ended between the marker and the end of the status. -/
theorem framed_iff {d : Dialogue} {polls : List Poll} {out : List Char}
    (hmarker : PlainMarker d.marker) (houtput : ¬ d.marker <:+: d.output)
    (hstream : received polls <+: d.stream)
    (hreturn : onTargetLoop d.marker polls [] = .seen out) :
    Framed d out ↔ NeverCutShort d polls := by
  obtain ⟨i, hout, hin, hbefore⟩ := onTargetLoop_seen hreturn
  simp only [List.nil_append] at hout hbefore
  obtain ⟨first, hfirst, hseen⟩ := search_marker hmarker houtput
  have hne : d.marker ≠ [] := List.ne_nil_of_length_pos (by have := hmarker.long; omega)
  -- the marker has been read exactly when enough has been read
  have hread : ∀ j, d.marker <:+: received (polls.take j) ↔
      d.seenAt ≤ (received (polls.take j)).length := by
    intro j
    rw [received_take hstream j, infix_take_iff hne hfirst, hseen, ← received_take hstream j]
  have hmono : ∀ {j k}, j ≤ k →
      (received (polls.take j)).length ≤ (received (polls.take k)).length := by
    intro j k hjk
    have hpart : polls.take j <+: polls.take k :=
      List.prefix_take_iff.2 ⟨List.take_prefix j polls, (List.length_take_le j polls).trans hjk⟩
    obtain ⟨rest, hrest⟩ := hpart
    rw [← hrest, received, received, List.flatMap_append, List.length_append]
    omega
  rw [hout, received_take hstream i, framed_take_iff hmarker houtput]
  rw [hout, hread] at hin
  constructor
  · rintro hdone j ⟨hj, hlt⟩
    have hij : i ≤ j := Nat.le_of_not_lt fun hji => hbefore j hji ((hread j).2 hj)
    have := hmono hij
    omega
  · intro hnever
    by_contra hlt
    exact hnever i ⟨hin, by omega⟩

/-- A command that prints a line and fails. -/
def printedRun : Dialogue :=
  ⟨['l', 's'], ['R', 'U', 'N', '_', 'D', 'O', 'N', 'E', '_'], ['?', '\n'], 139⟩

/-- What it sends, in two reads that meet in the middle of the line. -/
def printedPolls : List Poll :=
  [.read (printedRun.stream.take (printedRun.echo.length + 1)),
    .read (printedRun.stream.drop (printedRun.echo.length + 1))]

/-- Neither read ends behind the marker and before the status, so both are there. -/
theorem framed_printedRun : Framed printedRun (received printedPolls) := by
  have hreturn : onTargetLoop printedRun.marker printedPolls [] =
      .seen (received printedPolls) := rfl
  refine (framed_iff (by decide +kernel) (by decide +kernel) (by decide +kernel) hreturn).2 ?_
  intro i
  match i with
  | 0 => decide +kernel
  | 1 => decide +kernel
  | i + 2 =>
      have hall : printedPolls.take (i + 2) = printedPolls := by simp [printedPolls]
      rw [hall]
      decide +kernel

/-- A command that prints nothing and succeeds. -/
def silentRun : Dialogue :=
  ⟨['t', 'r', 'u', 'e'], ['R', 'U', 'N', '_', 'D', 'O', 'N', 'E', '_'], [], 0⟩

/-- A read that ends behind the marker leaves the status to the next one, and the loop returns
without it. -/
theorem not_framed_cutShort :
    ¬ ∀ (d : Dialogue) (polls : List Poll) (out : List Char), PlainMarker d.marker →
      ¬ d.marker <:+: d.output → received polls <+: d.stream →
        onTargetLoop d.marker polls [] = .seen out → Framed d out := by
  intro h
  have hframed := h silentRun
    [.read (silentRun.running ++ silentRun.marker), .read (silentRun.statusText ++ ['\n'])]
    (silentRun.running ++ silentRun.marker) (by decide +kernel) (by decide +kernel) ⟨[], rfl⟩ rfl
  exact absurd hframed.complete (by decide +kernel)

end Gate
