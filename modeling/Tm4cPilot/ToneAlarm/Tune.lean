import Tm4cPilot.Lib.Run
import Tm4cPilot.ToneAlarm.Player

/-!
# The player on any tune

A tune lies in memory in front of a NUL and of whatever follows it, all of which is the text of the
player.
-/

namespace Tm4cPilot.ToneAlarm

open List Nat

/-- The text has the command `MB`. -/
def hasMB : List UInt8 → Bool
  | [] => false
  | c :: text => toupper c = 'M'.toUInt8 && (nextChar text).1 = 'B'.toUInt8 || hasMB text

variable {tune junk text text' : List UInt8} {p : Player} {c : UInt8} {dotsFirst : Bool}
  {noteLength : UInt32}

/-- The player is inside the tune. -/
structure Player.Sound (tune junk : List UInt8) (p : Player) (text : List UInt8) : Prop where
  place : ∃ rest, rest <:+ tune ∧ rest ++ 0 :: junk = text
  source : ∀ text ∈ p.tune, text = tune ++ 0 :: junk
  repeats : p.repeats = true → hasMB tune = true
  octave : p.octave ≤ 6
  tempo : 32 ≤ p.tempo ∧ p.tempo ≤ 255
  note : ∀ note ∈ p.sounding, 1 ≤ note ∧ note ≤ 84

/-- The command stays in the tune. -/
def Command.Sound (tune junk : List UInt8) : Command → Prop
  | .go p text | .rest p text _ | .error p text => p.Sound tune junk text
  | .note p text key _ => p.Sound tune junk text ∧ 1 ≤ key ∧ key ≤ 84

namespace Player

/-- The player after some calls of `next_note`. -/
def callbacks : Player → List Bool → Player := Run.run fun p dotsFirst => (p.nextNote dotsFirst).2

/-- The loop is left within these rounds, and not past `stop`. -/
def LoopEnds (stop : List UInt8) (dotsFirst : Bool) (noteLength : UInt32) :
    ℕ → Player → List UInt8 → Prop
  | 0, _, _ => False
  | rounds + 1, p, text =>
    let (c, text) := nextChar text
    stop <:+ text ∧ (c ≠ 0 →
      match command dotsFirst noteLength p c text.tail with
      | .go p text => stop <:+ text ∧ LoopEnds stop dotsFirst noteLength rounds p text
      | .note _ text _ _ => stop <:+ (nextDots 0 text).2
      | .rest _ text _ | .error _ text => stop <:+ text)

/-- One of the next calls ends the tune and its sound. -/
def TuneEnds : ℕ → Player → Prop
  | 0, _ => False
  | calls + 1, p => ∀ dotsFirst,
    match p.nextNote dotsFirst with
    | (.done, p) => p.tune = none ∧ p.sounding = none
    | (_, p) => TuneEnds calls p

/-! ## The commands -/

theorem sound_started (tune junk : List UInt8) :
    (started (tune ++ 0 :: junk)).Sound tune junk (tune ++ 0 :: junk) where
  place := ⟨tune, suffix_rfl, rfl⟩
  source _ h := (Option.some.inj h).symm
  repeats := by rintro ⟨⟩
  octave := UInt32.le_of_lt (by decide : (4 : UInt32) < 6)
  tempo := (by decide : (32 : UInt32) ≤ 120 ∧ (120 : UInt32) ≤ 255)
  note := by rintro _ ⟨⟩

theorem Sound.stop (h : p.Sound tune junk text) : 0 :: junk <:+ text := by
  obtain ⟨rest, -, rfl⟩ := h.place
  exact suffix_append rest _

theorem Sound.move (h : p.Sound tune junk text) (hscans : Scans text text') :
    p.Sound tune junk text' := by
  obtain ⟨rest, hrest, rfl⟩ := h.place
  obtain ⟨read, hread, hsame⟩ := hscans
  refine { h with place := ?_ }
  rcases append_eq_append_iff.mp hsame with ⟨rest', rfl, htext⟩ | ⟨past, rfl, hstop⟩
  · exact ⟨rest', (suffix_append read rest').trans hrest, htext.symm⟩
  · cases past with
    | nil => exact ⟨[], nil_suffix, hstop⟩
    | cons d past =>
      obtain rfl : 0 = d := (cons.inj hstop).1
      exact absurd (by simp) hread

theorem nextChar_append (text junk : List UInt8) :
    (nextChar (text ++ 0 :: junk)).1 = (nextChar text).1 := by
  induction text with
  | nil => rfl
  | cons d text ih =>
    rw [cons_append, nextChar, nextChar, dropWhile_cons, dropWhile_cons]
    split
    · exact ih
    · rfl

theorem hasMB_of_suffix {rest : List UInt8} (h : rest <:+ tune) (hrest : hasMB rest = true) :
    hasMB tune = true := by
  obtain ⟨read, rfl⟩ := h
  induction read with
  | nil => exact hrest
  | cons d read ih => rw [cons_append, hasMB, ih, Bool.or_true]

theorem Sound.hasMB_tune (h : p.Sound tune junk text) (hchar : nextChar text' = ('M'.toUInt8, text))
    (hnext : (nextChar text.tail).1 = 'B'.toUInt8) : hasMB tune = true := by
  obtain ⟨m, hm, -, htext⟩ := eq_cons_of_nextChar hchar (by decide)
  obtain ⟨rest, hsuffix, rfl⟩ := h.place
  refine hasMB_of_suffix hsuffix ?_
  cases rest with
  | nil =>
    obtain rfl : 0 = m := (cons.inj htext).1
    contradiction
  | cons d rest =>
    obtain rfl : d = m := (cons.inj htext).1
    rw [cons_append, tail_cons, nextChar_append] at hnext
    rw [hasMB, hm, hnext]
    rfl

theorem Sound.mode (h : p.Sound tune junk text) (hchar : nextChar text' = ('M'.toUInt8, text)) :
    (p.mode text.tail).Sound tune junk := by
  rcases hnext : nextChar text.tail with ⟨c, rest⟩
  have hafter := (h.move (scans_tail hchar (by decide))).move (scans_nextChar hnext)
  rw [Player.mode, hnext]
  refine iteInduction (fun _ => hafter) fun hc => ?_
  have htail := hafter.move (scans_tail hnext hc)
  refine iteInduction (fun _ => { htail with }) fun _ => ?_
  refine iteInduction (fun _ => { htail with }) fun _ => ?_
  refine iteInduction (fun _ => { htail with }) fun _ => ?_
  refine iteInduction (fun _ => { htail with repeats := by rintro ⟨⟩ }) fun _ => ?_
  refine iteInduction (fun hb => { htail with repeats := fun _ => ?_ }) fun _ => htail
  exact h.hasMB_tune hchar ((congrArg Prod.fst hnext).trans hb)

theorem accidental_range {note : UInt32} (h : 1 ≤ note ∧ note ≤ 84) (text : List UInt8) :
    1 ≤ (accidental note text).1 ∧ (accidental note text).1 ≤ 84 := by
  simp only [accidental]
  grind

theorem noteTab_le (i : ℕ) : noteTab.getD i 0 ≤ 11 := by
  rcases lt_or_ge i 7 with hlt | hge
  · interval_cases i <;> decide
  · rw [getD_eq_getElem?_getD, getElem?_eq_none hge]
    decide

theorem Sound.letter (h : p.Sound tune junk text) (c : UInt8) :
    (p.letter c text).Sound tune junk := by
  have htab := noteTab_le (c - 'A'.toUInt8).toNat
  have hoctave := h.octave
  refine ⟨h.move ((scans_accidental _ _).trans (scans_nextNumber _ _)), accidental_range ?_ _⟩
  grind

theorem Sound.command (h : p.Sound tune junk text) (dotsFirst : Bool) (noteLength : UInt32)
    (hchar : nextChar text' = (c, text)) (hc : c ≠ 0) :
    (command dotsFirst noteLength p c text.tail).Sound tune junk := by
  have hrest := h.move (scans_tail hchar hc)
  have hnumber := hrest.move (scans_nextNumber 0 text.tail)
  have hoctave := h.octave
  rcases hnext : nextNumber 0 text.tail with ⟨number, rest⟩
  rw [hnext] at hnumber
  rw [Player.command, hnext]
  -- one branch for each letter
  refine iteInduction (fun _ => iteInduction (fun _ => { hnumber with }) fun _ => { hnumber with })
    fun _ => ?_
  refine iteInduction (fun _ => { hnumber with octave := by grind }) fun _ => ?_
  refine iteInduction (fun _ => { hrest with octave := by grind }) fun _ => ?_
  refine iteInduction (fun _ => { hrest with octave := by grind }) fun _ => ?_
  refine iteInduction (fun hm => h.mode (hm ▸ hchar)) fun _ => ?_
  refine iteInduction (fun _ => { hrest.move (scans_numberAndDots dotsFirst text.tail) with
    note := by rintro _ ⟨⟩ }) fun _ => ?_
  refine iteInduction (fun _ => iteInduction (fun hrange => { hnumber with tempo := hrange })
    fun _ => hnumber) fun _ => ?_
  refine iteInduction (fun _ => iteInduction (fun _ => hnumber) fun hle => iteInduction
    (fun _ => hnumber.move (scans_nextDots 0 rest)) fun hne => ⟨hnumber, by grind⟩) fun _ => ?_
  exact iteInduction (fun _ => hrest.letter c) fun _ => hrest

/-- The outcome of a call is in range. -/
structure Result (tune junk : List UInt8) (r : Outcome × Player) : Prop where
  sound : ∃ text, r.2.next = some text ∧ r.2.Sound tune junk text
  restart : r.1 = .restart → hasMB tune = true
  done : r.1 = .done → r.2.tune = none ∧ r.2.sounding = none

theorem Sound.tuneEnd (h : p.Sound tune junk text) : Result tune junk (p.tuneEnd text) := by
  rw [Player.tuneEnd]
  split
  · next text' hrepeats htune =>
    obtain rfl := h.source text' htune
    exact ⟨⟨_, rfl, sound_started tune junk⟩, fun _ => h.repeats hrepeats, by rintro ⟨⟩⟩
  · exact ⟨⟨text, rfl, { h with source := by rintro _ ⟨⟩, note := by rintro _ ⟨⟩ }⟩, by rintro ⟨⟩,
      fun _ => ⟨rfl, rfl⟩⟩

theorem Sound.parse {rounds : ℕ} (h : p.Sound tune junk text) (hlt : text.length < rounds) :
    Result tune junk (parse dotsFirst noteLength rounds p text) ∧
      LoopEnds (0 :: junk) dotsFirst noteLength rounds p text := by
  induction rounds generalizing p text with
  | zero => exact absurd hlt (not_lt_zero _)
  | succ rounds ih =>
    rw [Player.parse, LoopEnds]
    rcases hchar : nextChar text with ⟨c, rest⟩
    have hrest := h.move (scans_nextChar hchar)
    dsimp only
    split
    · next hc => exact ⟨hrest.tuneEnd, hrest.stop, fun hne => absurd hc hne⟩
    · next hc =>
      have hshort := length_tail_lt hchar hc
      have hfollows := follows_command dotsFirst noteLength p c rest.tail
      have hcommand := hrest.command dotsFirst noteLength hchar hc
      cases hresult : p.command dotsFirst noteLength c rest.tail with
      | go p' text' =>
        rw [hresult] at hcommand hfollows
        obtain ⟨hend, hloop⟩ := ih hcommand (by have := hfollows.2; omega)
        exact ⟨hend, hrest.stop, fun _ => ⟨hcommand.stop, hloop⟩⟩
      | note p' text' note noteLength' =>
        rw [hresult] at hcommand
        have hdots := hcommand.1.move (scans_nextDots 0 text')
        refine ⟨⟨⟨_, rfl, { hdots with note := ?_ }⟩, by rintro ⟨⟩, by rintro ⟨⟩⟩, hrest.stop,
          fun _ => hdots.stop⟩
        rintro _ ⟨⟩
        exact hcommand.2
      | rest p' text' delay =>
        rw [hresult] at hcommand
        exact ⟨⟨⟨text', rfl, { hcommand with }⟩, by rintro ⟨⟩, by rintro ⟨⟩⟩, hrest.stop,
          fun _ => hcommand.stop⟩
      | error p' text' =>
        rw [hresult] at hcommand
        have herror : Sound tune junk { p' with repeats := false } text' :=
          { hcommand with repeats := by rintro ⟨⟩ }
        exact ⟨herror.tuneEnd, hrest.stop, fun _ => hcommand.stop⟩

theorem Sound.nextNote (h : p.Sound tune junk text) (hnext : p.next = some text) :
    Result tune junk (p.nextNote dotsFirst) := by
  have hsilent : Sound tune junk { p with sounding := none } text :=
    { h with note := by rintro _ ⟨⟩ }
  rw [Player.nextNote]
  split
  · exact ⟨⟨text, hnext, { hsilent with }⟩, by rintro ⟨⟩, by rintro ⟨⟩⟩
  · split
    · next text' _ hnext' _ =>
      obtain rfl := Option.some.inj (hnext.symm.trans hnext')
      exact (h.parse (lt_succ_self _)).1
    · next hmissing =>
      refine ⟨⟨text, hnext, hsilent⟩, by rintro ⟨⟩, fun _ => ⟨?_, rfl⟩⟩
      exact Option.eq_none_iff_forall_ne_some.mpr fun tune htune => hmissing text tune hnext htune

/-- A bound for the number of calls until the tune is over. -/
def callsLeft (p : Player) : ℕ := 2 * p.remaining + if 0 < p.silenceLength then 1 else 0

theorem Sound.tuneEnds (honce : hasMB tune = false) {calls : ℕ} (h : p.Sound tune junk text)
    (hnext : p.next = some text) (hlt : p.callsLeft < calls) : TuneEnds calls p := by
  induction calls generalizing p text with
  | zero => exact absurd hlt (not_lt_zero _)
  | succ calls ih =>
    intro dotsFirst
    have hresult : Result tune junk (p.nextNote dotsFirst) := h.nextNote hnext
    rcases hnote : p.nextNote dotsFirst with ⟨outcome, p'⟩
    rw [hnote] at hresult
    cases outcome with
    | wait delay =>
      obtain ⟨text', hnext', h'⟩ := hresult.sound
      refine ih h' hnext' ?_
      obtain ⟨-, hless | ⟨hpos, rfl, rfl⟩⟩ := nextNote_wait hnote
      · rw [callsLeft] at hlt ⊢
        split_ifs at hlt ⊢ <;> omega
      · rw [callsLeft, if_pos hpos] at hlt
        exact lt_of_succ_lt_succ hlt
    | restart => exact absurd (hresult.restart rfl) (by rw [honce]; decide)
    | done => exact hresult.done rfl

/-- Whatever follows the NUL: `_next` never moves past it, every call ends, notes, octave and tempo
are in range, and a tune without `MB` is over after finitely many calls. -/
theorem nextNote_wellBehaved (tune junk : List UInt8) :
    (∀ orders : List Bool, let p := callbacks (started (tune ++ 0 :: junk)) orders
      ∃ text, p.next = some text ∧ 0 :: junk <:+ text ∧
        (∀ dotsFirst, LoopEnds (0 :: junk) dotsFirst p.noteLength (text.length + 1) p text) ∧
        (∀ note ∈ p.sounding, 1 ≤ note ∧ note ≤ 84) ∧ p.octave ≤ 6 ∧ 32 ≤ p.tempo ∧ p.tempo ≤ 255) ∧
    (hasMB tune = false → ∃ calls, TuneEnds calls (started (tune ++ 0 :: junk))) := by
  have hstart := sound_started tune junk
  constructor
  · intro orders p
    obtain ⟨text, hnext, h⟩ : ∃ text, p.next = some text ∧ p.Sound tune junk text := by
      refine Run.run_invariant
        (I := fun p : Player => ∃ text, p.next = some text ∧ p.Sound tune junk text) ?_
        ⟨_, rfl, hstart⟩ orders
      rintro p dotsFirst ⟨text, hnext, h⟩
      exact (h.nextNote hnext).sound
    exact ⟨text, hnext, h.stop, fun _ => (h.parse (lt_succ_self _)).2, h.note, h.octave, h.tempo⟩
  · intro honce
    exact ⟨_, hstart.tuneEnds honce rfl (lt_succ_self _)⟩

/-- `T99 mfO6b+ P4.`, with `MB` behind the NUL. -/
theorem nextNote_wellBehaved_once :
    let tune := ['T', '9', '9', ' ', 'm', 'f', 'O', '6', 'b', '+', ' ', 'P', '4', '.'].map
      Char.toUInt8
    hasMB tune = false ∧ ∃ calls, TuneEnds calls (started (tune ++ [0, 77, 66])) :=
  ⟨by decide, (nextNote_wellBehaved _ [77, 66]).2 (by decide)⟩

end Player

end Tm4cPilot.ToneAlarm
