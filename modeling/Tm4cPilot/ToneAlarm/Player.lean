import Mathlib.Tactic

/-!
# The tune player

`next_note` reads commands up to a note or a pause, and asks to be called again when it is over.
-/

namespace Tm4cPilot.ToneAlarm

open List Prod

def isspace (c : UInt8) : Bool := c = 32 || (9 ≤ c && c ≤ 13)

def isdigit (c : UInt8) : Bool := 48 ≤ c && c ≤ 57

def toupper (c : UInt8) : UInt8 := if 97 ≤ c ∧ c ≤ 122 then c - 32 else c

/-- `next_char`: the character, or 0 at the end, and the text. -/
def nextChar (text : List UInt8) : UInt8 × List UInt8 :=
  let text := text.dropWhile isspace
  ((text.head?.map toupper).getD 0, text)

def nextNumber (number : UInt32) : List UInt8 → UInt32 × List UInt8
  | [] => (number, [])
  | c :: text =>
    if isspace c then nextNumber number text
    else if isdigit c then nextNumber (number * 10 + (c - 48).toUInt32) text
    else (number, c :: text)

def nextDots (dots : ℕ) : List UInt8 → ℕ × List UInt8
  | [] => (dots, [])
  | c :: text =>
    if isspace c then nextDots dots text
    else if c = '.'.toUInt8 then nextDots (dots + 1) text
    else (dots, c :: text)

inductive NoteMode where
  | normal
  | legato
  | staccato
  deriving DecidableEq, Repr

/-- The player. The place in a tune is the text from there on; `sounding` is the note that is
played. -/
structure Player where
  tune : Option (List UInt8)
  next : Option (List UInt8)
  tempo : UInt32
  noteLength : UInt32
  noteMode : NoteMode
  octave : UInt32
  silenceLength : UInt32
  repeats : Bool
  sounding : Option UInt32
  deriving DecidableEq, Repr

/-- What `next_note` asks for. -/
inductive Outcome where
  /-- `hrt_call_after` with a delay. -/
  | wait (delay : UInt32)
  /-- `start_tune` with the same tune. -/
  | restart
  | done
  deriving DecidableEq, Repr

/-- `while (dots--)`. -/
def extend : ℕ → UInt32 → UInt32 → UInt32
  | 0, period, _ => period
  | dots + 1, period, extension => extend dots (period + extension) (extension / 2)

namespace Player

variable (p : Player)

/-- The length of a note. -/
def period (length : UInt32) : UInt32 := 240000000 / p.tempo / (if length = 0 then 1 else length)

/-- `note_duration`: the duration and the silence. -/
def noteDuration (noteLength : UInt32) (dots : ℕ) : UInt32 × UInt32 :=
  let silence :=
    match p.noteMode with
    | .normal => p.period noteLength / 8
    | .staccato => p.period noteLength / 4
    | .legato => 0
  let period := p.period noteLength - silence
  (extend dots period (period / 2), silence)

def restDuration (restLength : UInt32) (dots : ℕ) : UInt32 :=
  extend dots (p.period restLength) (p.period restLength / 2)

/-- The player of a tune. -/
def started (tune : List UInt8) : Player where
  tune := some tune
  next := some tune
  tempo := 120
  noteLength := 4
  noteMode := .normal
  octave := 4
  silenceLength := 0
  repeats := false
  sounding := none

/-- The label `tune_end`. -/
def tuneEnd (text : List UInt8) : Outcome × Player :=
  match p.repeats, p.tune with
  | true, some tune => (.restart, started tune)
  | _, _ => (.done, { p with tune := none, next := some text, sounding := none })

/-- The label `tune_error`. -/
def tuneError (text : List UInt8) : Outcome × Player := tuneEnd { p with repeats := false } text

end Player

/-! ## Commands -/

/-- What a command leads to. -/
inductive Command where
  | go (p : Player) (text : List UInt8)
  | note (p : Player) (text : List UInt8) (note noteLength : UInt32)
  | rest (p : Player) (text : List UInt8) (delay : UInt32)
  | error (p : Player) (text : List UInt8)

def noteTab : List UInt32 := [9, 11, 0, 2, 4, 5, 7]

/-- `next_number(..), next_dots(..)`, in an order that C leaves open. -/
def numberAndDots (dotsFirst : Bool) (text : List UInt8) : UInt32 × ℕ × List UInt8 :=
  if dotsFirst then
    let (dots, text) := nextDots 0 text
    let (number, text) := nextNumber 0 text
    (number, dots, text)
  else
    let (number, text) := nextNumber 0 text
    let (dots, text) := nextDots 0 text
    (number, dots, text)

/-- The sign after a note. -/
def accidental (note : UInt32) (text : List UInt8) : UInt32 × List UInt8 :=
  let (c, text) := nextChar text
  if c = '#'.toUInt8 ∨ c = '+'.toUInt8 then (if note < 84 then note + 1 else note, text.tail)
  else if c = '-'.toUInt8 then (if 1 < note then note - 1 else note, text.tail)
  else (note, text)

namespace Player

/-- `M`: the mode, and whether the tune is repeated. -/
def mode (p : Player) (text : List UInt8) : Command :=
  let (c, text) := nextChar text
  if c = 0 then .error p text
  else if c = 'N'.toUInt8 then .go { p with noteMode := .normal } text.tail
  else if c = 'L'.toUInt8 then .go { p with noteMode := .legato } text.tail
  else if c = 'S'.toUInt8 then .go { p with noteMode := .staccato } text.tail
  else if c = 'F'.toUInt8 then .go { p with repeats := false } text.tail
  else if c = 'B'.toUInt8 then .go { p with repeats := true } text.tail
  else .error p text.tail

/-- `A` to `G`: a note, sharp or flat, and its length. -/
def letter (p : Player) (c : UInt8) (text : List UInt8) : Command :=
  let (note, text) := accidental (noteTab.getD (c - 'A'.toUInt8).toNat 0 + p.octave * 12 + 1) text
  let (length, text) := nextNumber 0 text
  .note p text note (if length = 0 then p.noteLength else length)

/-- The body of the loop, after its first character. -/
def command (dotsFirst : Bool) (noteLength : UInt32) (p : Player) (c : UInt8) (text : List UInt8) :
    Command :=
  if c = 'L'.toUInt8 then
    let (number, text) := nextNumber 0 text
    let p := { p with noteLength := number }
    if number < 1 then .error p text else .go p text
  else if c = 'O'.toUInt8 then
    let (number, text) := nextNumber 0 text
    .go { p with octave := if 6 < number then 6 else number } text
  else if c = '<'.toUInt8 then
    .go { p with octave := if 0 < p.octave then p.octave - 1 else p.octave } text
  else if c = '>'.toUInt8 then
    .go { p with octave := if p.octave < 6 then p.octave + 1 else p.octave } text
  else if c = 'M'.toUInt8 then p.mode text
  else if c = 'P'.toUInt8 then
    let (number, dots, text) := numberAndDots dotsFirst text
    .rest { p with sounding := none } text (p.restDuration number dots)
  else if c = 'T'.toUInt8 then
    let (number, text) := nextNumber 0 text
    if 32 ≤ number ∧ number ≤ 255 then .go { p with tempo := number } text else .error p text
  else if c = 'N'.toUInt8 then
    let (number, text) := nextNumber 0 text
    if 84 < number then .error p text
    else if number = 0 then
      let (dots, text) := nextDots 0 text
      .rest p text (p.restDuration p.noteLength dots)
    else .note p text number noteLength
  else if 'A'.toUInt8 ≤ c ∧ c ≤ 'G'.toUInt8 then p.letter c text
  else .error p text

/-- The loop of `next_note`. Every command takes a character, so there are enough rounds. -/
def parse (dotsFirst : Bool) (noteLength : UInt32) : ℕ → Player → List UInt8 → Outcome × Player
  | 0, p, text => p.tuneEnd text
  | rounds + 1, p, text =>
    let (c, text) := nextChar text
    if c = 0 then p.tuneEnd text
    else
      match command dotsFirst noteLength p c text.tail with
      | .go p text => parse dotsFirst noteLength rounds p text
      | .note p text note noteLength =>
        let (dots, text) := nextDots 0 text
        let (duration, silence) := p.noteDuration noteLength dots
        (.wait duration,
          { p with next := some text, silenceLength := silence, sounding := some note })
      | .rest p text delay => (.wait delay, { p with next := some text })
      | .error p text => p.tuneError text

def nextNote (dotsFirst : Bool) (p : Player) : Outcome × Player :=
  if 0 < p.silenceLength then
    (.wait p.silenceLength, { p with silenceLength := 0, sounding := none })
  else
    match p.next, p.tune with
    | some text, some _ => parse dotsFirst p.noteLength (text.length + 1) p text
    | _, _ => (.done, { p with sounding := none })

end Player

/-! ## Progress -/

/-- A scan goes on in the text, and does not go over a NUL. -/
def Scans (text text' : List UInt8) : Prop := ∃ read, 0 ∉ read ∧ read ++ text' = text

variable {text text' text'' : List UInt8}

theorem Scans.refl (text : List UInt8) : Scans text text := ⟨[], not_mem_nil, rfl⟩

theorem Scans.cons {c : UInt8} (hc : c ≠ 0) (h : Scans text text') : Scans (c :: text) text' := by
  obtain ⟨read, hread, rfl⟩ := h
  exact ⟨c :: read, not_mem_cons_of_ne_of_not_mem hc.symm hread, rfl⟩

theorem Scans.trans (h : Scans text text') (h' : Scans text' text'') : Scans text text'' := by
  obtain ⟨read, hread, rfl⟩ := h
  obtain ⟨read', hread', rfl⟩ := h'
  exact ⟨read ++ read', by simp [hread, hread'], append_assoc ..⟩

theorem Scans.length_le (h : Scans text text') : text'.length ≤ text.length := by
  obtain ⟨read, -, rfl⟩ := h
  rw [length_append]
  omega

theorem scans_nextNumber (number : UInt32) (text : List UInt8) :
    Scans text (nextNumber number text).2 := by
  induction text generalizing number with
  | nil => exact .refl []
  | cons c text ih =>
    rw [nextNumber]
    split_ifs with hspace hdigit
    · exact (ih _).cons (by rintro rfl; contradiction)
    · exact (ih _).cons (by rintro rfl; contradiction)
    · exact .refl _

theorem scans_nextDots (dots : ℕ) (text : List UInt8) : Scans text (nextDots dots text).2 := by
  induction text generalizing dots with
  | nil => exact .refl []
  | cons c text ih =>
    rw [nextDots]
    split_ifs with hspace hdot
    · exact (ih _).cons (by rintro rfl; contradiction)
    · exact (ih _).cons (by rintro rfl; contradiction)
    · exact .refl _

section

variable {c : UInt8} (hchar : nextChar text = (c, text'))

include hchar

theorem spaces_of_nextChar :
    ∃ spaces, (∀ d ∈ spaces, isspace d = true) ∧ spaces ++ text' = text := by
  obtain rfl : text.dropWhile isspace = text' := congrArg snd hchar
  exact ⟨text.takeWhile isspace, all_eq_true.mp all_takeWhile, takeWhile_append_dropWhile⟩

theorem scans_nextChar : Scans text text' := by
  obtain ⟨spaces, hspaces, htext⟩ := spaces_of_nextChar hchar
  exact ⟨spaces, fun hzero => absurd (hspaces 0 hzero) (by decide), htext⟩

/-- The character that is read stands in the text, and it is not white space. -/
theorem eq_cons_of_nextChar (hc : c ≠ 0) :
    ∃ d, toupper d = c ∧ isspace d = false ∧ text' = d :: text'.tail := by
  have hdrop : text.dropWhile isspace = text' := congrArg snd hchar
  have hhead : (text'.head?.map toupper).getD 0 = c := hdrop ▸ congrArg fst hchar
  cases text' with
  | nil => exact absurd hhead.symm hc
  | cons d rest =>
    have hspace := head?_dropWhile_not isspace text
    rw [hdrop] at hspace
    exact ⟨d, hhead, by simpa using hspace, rfl⟩

theorem scans_tail (hc : c ≠ 0) : Scans text' text'.tail := by
  obtain ⟨d, rfl, -, htext⟩ := eq_cons_of_nextChar hchar hc
  rw [htext]
  exact (Scans.refl _).cons (by rintro rfl; exact hc rfl)

theorem length_tail_lt (hc : c ≠ 0) : text'.tail.length < text.length := by
  have hle := (scans_nextChar hchar).length_le
  obtain ⟨d, -, -, htext⟩ := eq_cons_of_nextChar hchar hc
  rw [htext, length_cons] at hle
  exact hle

end

theorem scans_numberAndDots (dotsFirst : Bool) (text : List UInt8) :
    Scans text (numberAndDots dotsFirst text).2.2 := by
  cases dotsFirst with
  | false => exact (scans_nextNumber _ _).trans (scans_nextDots _ _)
  | true => exact (scans_nextDots _ _).trans (scans_nextNumber _ _)

theorem scans_accidental (note : UInt32) (text : List UInt8) :
    Scans text (accidental note text).2 := by
  rcases hchar : nextChar text with ⟨c, rest⟩
  have hscans := scans_nextChar hchar
  simp only [accidental, hchar]
  split
  · next hsharp => exact hscans.trans (scans_tail hchar (by rintro rfl; contradiction))
  · split
    · next hflat => exact hscans.trans (scans_tail hchar (by rintro rfl; contradiction))
    · exact hscans

/-- The command keeps the tune and takes text. -/
def Command.Follows (p : Player) (text : List UInt8) : Command → Prop
  | .go p' text' => p'.tune = p.tune ∧ text'.length ≤ text.length
  | .note p' text' _ _ => p'.tune = p.tune ∧ text'.length ≤ text.length
  | .rest p' text' _ => p'.tune = p.tune ∧ text'.length ≤ text.length
  | .error p' _ => p'.tune = p.tune

theorem Command.Follows.ite {p : Player} {c : Prop} [Decidable c] {yes no : Command}
    (hyes : yes.Follows p text) (hno : no.Follows p text) :
    (if c then yes else no).Follows p text := by
  split
  · exact hyes
  · exact hno

namespace Player

open Command.Follows in
theorem follows_mode (p : Player) (text : List UInt8) : (p.mode text).Follows p text := by
  rcases hchar : nextChar text with ⟨c, rest⟩
  have hle := (scans_nextChar hchar).length_le
  have htail : rest.tail.length ≤ text.length := by
    rw [length_tail]
    omega
  rw [mode, hchar]
  refine ite rfl ?_
  refine ite ⟨rfl, htail⟩ ?_
  refine ite ⟨rfl, htail⟩ ?_
  refine ite ⟨rfl, htail⟩ ?_
  refine ite ⟨rfl, htail⟩ ?_
  exact ite ⟨rfl, htail⟩ rfl

theorem follows_letter (p : Player) (c : UInt8) (text : List UInt8) :
    (p.letter c text).Follows p text :=
  ⟨rfl, ((scans_accidental _ _).trans (scans_nextNumber _ _)).length_le⟩

open Command.Follows in
theorem follows_command (dotsFirst : Bool) (noteLength : UInt32) (p : Player) (c : UInt8)
    (text : List UInt8) : (command dotsFirst noteLength p c text).Follows p text := by
  have hnumber := (scans_nextNumber 0 text).length_le
  rcases hnext : nextNumber 0 text with ⟨number, rest⟩
  rw [hnext] at hnumber
  rw [command, hnext]
  -- one branch for each letter
  refine ite (ite rfl ⟨rfl, hnumber⟩) ?_
  refine ite ⟨rfl, hnumber⟩ ?_
  refine ite ⟨rfl, le_rfl⟩ ?_
  refine ite ⟨rfl, le_rfl⟩ ?_
  refine ite (follows_mode p text) ?_
  refine ite ⟨rfl, (scans_numberAndDots dotsFirst text).length_le⟩ ?_
  refine ite (ite ⟨rfl, hnumber⟩ rfl) ?_
  refine ite (ite rfl (ite ⟨rfl, (scans_nextDots _ _).length_le.trans hnumber⟩ ⟨rfl, hnumber⟩)) ?_
  exact ite (follows_letter p c text) rfl

/-- The player keeps its tune, and is further on or back at the start. -/
def Continues (p : Player) (text : List UInt8) (result : Outcome × Player) : Prop :=
  match result.1 with
  | .wait _ =>
    result.2.tune = p.tune ∧ ∃ text' ∈ result.2.next, text'.length < text.length
  | .restart => ∃ tune ∈ p.tune, result.2 = started tune
  | .done => result.2.tune = none

variable {p p' : Player}

theorem Continues.mono {text text' : List UInt8} {result : Outcome × Player}
    (h : Continues p' text' result) (htune : p'.tune = p.tune) (hle : text'.length ≤ text.length) :
    Continues p text result := by
  obtain ⟨outcome, next⟩ := result
  cases outcome with
  | wait delay =>
    obtain ⟨hkeeps, text'', hnext, hlt⟩ := h
    exact ⟨hkeeps.trans htune, text'', hnext, hlt.trans_le hle⟩
  | restart =>
    obtain ⟨tune, hmem, hstarted⟩ := h
    exact ⟨tune, htune ▸ hmem, hstarted⟩
  | done => exact h

theorem follows_tuneEnd (p : Player) (text text' : List UInt8) :
    Continues p text (p.tuneEnd text') := by
  rw [tuneEnd]
  split
  · next tune _ htune => exact ⟨tune, htune, rfl⟩
  · rfl

theorem follows_parse (dotsFirst : Bool) (noteLength : UInt32) {rounds : ℕ} {text : List UInt8} :
    Continues p text (parse dotsFirst noteLength rounds p text) := by
  induction rounds generalizing p text with
  | zero => exact follows_tuneEnd p text text
  | succ rounds ih =>
    rw [parse]
    rcases hchar : nextChar text with ⟨c, rest⟩
    dsimp only
    split
    · exact follows_tuneEnd p text rest
    · next hc =>
      have hlt := length_tail_lt hchar hc
      have hfollows := follows_command dotsFirst noteLength p c rest.tail
      split
      · next p' text' hgo =>
        rw [hgo] at hfollows
        exact ih.mono hfollows.1 (hfollows.2.trans hlt.le)
      · next p' text' note noteLength' hnote =>
        rw [hnote] at hfollows
        exact ⟨hfollows.1, _, rfl, ((scans_nextDots 0 text').length_le.trans hfollows.2).trans_lt hlt⟩
      · next p' text' delay hrest =>
        rw [hrest] at hfollows
        exact ⟨hfollows.1, _, rfl, hfollows.2.trans_lt hlt⟩
      · next p' text' herror =>
        rw [herror] at hfollows
        exact (follows_tuneEnd { p' with repeats := false } text text').mono hfollows le_rfl

/-- The text that is left. -/
def remaining (p : Player) : ℕ := (p.next.getD []).length

theorem nextNote_cases (dotsFirst : Bool) (p : Player) :
    (0 < p.silenceLength ∧ p.nextNote dotsFirst =
      (.wait p.silenceLength, { p with silenceLength := 0, sounding := none })) ∨
    (∃ text, p.next = some text ∧
      p.nextNote dotsFirst = parse dotsFirst p.noteLength (text.length + 1) p text) ∨
    p.nextNote dotsFirst = (.done, { p with sounding := none }) := by
  rw [nextNote]
  split
  · next hpos => exact .inl ⟨hpos, rfl⟩
  · split
    · next text tune hnext htune => exact .inr (.inl ⟨text, hnext, rfl⟩)
    · exact .inr (.inr rfl)

variable {dotsFirst : Bool}

theorem nextNote_wait {delay : UInt32} (h : p.nextNote dotsFirst = (.wait delay, p')) :
    p'.tune = p.tune ∧ (p'.remaining < p.remaining ∨
      0 < delay ∧ delay = p.silenceLength ∧ p' = { p with silenceLength := 0, sounding := none }) := by
  rcases nextNote_cases dotsFirst p with ⟨hpos, hwait⟩ | ⟨text, hnext, hparse⟩ | hdone
  · obtain ⟨hdelay, rfl⟩ := Prod.mk.inj (hwait.symm.trans h)
    obtain rfl := Outcome.wait.inj hdelay
    exact ⟨rfl, .inr ⟨hpos, rfl, rfl⟩⟩
  · have hcontinues : Continues p text (.wait delay, p') :=
      (hparse.symm.trans h) ▸ follows_parse dotsFirst p.noteLength
    obtain ⟨hkeeps, text', hnext', hlt⟩ := hcontinues
    have hnext'' : p'.next = some text' := hnext'
    refine ⟨hkeeps, .inl ?_⟩
    rwa [remaining, remaining, hnext, hnext'']
  · cases hdone.symm.trans h

theorem nextNote_restart (h : p.nextNote dotsFirst = (.restart, p')) :
    ∃ tune ∈ p.tune, p' = started tune := by
  rcases nextNote_cases dotsFirst p with ⟨-, hwait⟩ | ⟨text, -, hparse⟩ | hdone
  · cases hwait.symm.trans h
  · have hcontinues : Continues p text (.restart, p') :=
      (hparse.symm.trans h) ▸ follows_parse dotsFirst p.noteLength
    exact hcontinues
  · cases hdone.symm.trans h

theorem tune_nextNote {tune : List UInt8} (h : tune ∈ (p.nextNote dotsFirst).2.tune) :
    tune ∈ p.tune := by
  rcases hnote : p.nextNote dotsFirst with ⟨outcome, p'⟩
  rw [hnote] at h
  cases outcome with
  | wait delay => exact (nextNote_wait hnote).1 ▸ h
  | restart =>
    obtain ⟨tune', hmem, rfl⟩ := nextNote_restart hnote
    obtain rfl : tune' = tune := Option.some.inj h
    exact hmem
  | done =>
    rcases nextNote_cases dotsFirst p with ⟨-, hwait⟩ | ⟨text, -, hparse⟩ | hdone
    · cases hwait.symm.trans hnote
    · have hcontinues : Continues p text (.done, p') :=
        (hparse.symm.trans hnote) ▸ follows_parse dotsFirst p.noteLength
      have hnone : p'.tune = none := hcontinues
      rw [hnone] at h
      contradiction
    · obtain rfl := congrArg snd (hdone.symm.trans hnote)
      exact h

end Player

end Tm4cPilot.ToneAlarm
