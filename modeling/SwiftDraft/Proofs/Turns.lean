import SwiftDraft.Proofs.Sessions
import SwiftDraft.Proofs.Trimmed
import SwiftDraft.Shell.Dialogue

/-!
# The turns of a dialogue

The lines of an input divide into turns in exactly one way (`Splits`, `existsUnique_splits`): blank
lines, lines of their own, and pasted blocks that run up to a lone point. The division is one of the
lines alone, whatever the session makes of them. A dialogue plays these turns one after the other,
up to the first `.quit` (`follows_of_splits`): no block is open and the buffer is empty between two
turns, so that a block is converted as it stands, and one without an end is never converted.
-/

namespace SwiftDraft.Shell

open Text
open Workbench (Job Record)

namespace Dialogue

/-- The line is a command that opens a pasted block under a name. -/
def Opens (l name : Text) : Prop := Command.parse l = .ok (.paste name)

/-- The line ends a pasted block. -/
def Closes (l : Text) : Prop := trim l = ['.']

instance (l : Text) : Decidable (Closes l) := inferInstanceAs (Decidable (trim l = ['.']))

/-- What lines are to a dialogue. -/
inductive Turn where
  | blank
  /-- A line of its own. -/
  | spoken (l : Text)
  /-- A block with the line that opens it. -/
  | pasted (l name : Text) (body : List Text)
  /-- A block that has not ended when the input does. -/
  | unfinished (l name : Text) (body : List Text)

/-- The lines are these turns, in order. -/
inductive Splits : List Text → List Turn → Prop
  | nil : Splits [] []
  | blank {l : Text} {ls : List Text} {ts : List Turn} (blank : trim l = []) (rest : Splits ls ts) :
      Splits (l :: ls) (.blank :: ts)
  | spoken {l : Text} {ls : List Text} {ts : List Turn} (filled : trim l ≠ [])
      (plain : ∀ name, ¬Opens l name) (rest : Splits ls ts) : Splits (l :: ls) (.spoken l :: ts)
  | pasted {l name last : Text} {body ls : List Text} {ts : List Turn} (opens : Opens l name)
      (inside : ∀ b ∈ body, ¬Closes b) (closes : Closes last) (rest : Splits ls ts) :
      Splits (l :: (body ++ last :: ls)) (.pasted l name body :: ts)
  | unfinished {l name : Text} {body : List Text} (opens : Opens l name)
      (inside : ∀ b ∈ body, ¬Closes b) : Splits (l :: body) [.unfinished l name body]

section

variable {l name last : Text} {body ls ms : List Text} {ts us : List Turn}

theorem Opens.filled (opens : Opens l name) : trim l ≠ [] := by
  intro blank
  rw [Opens, Command.parse, blank] at opens
  cases opens

theorem Opens.name_unique {other : Text} (opens : Opens l name) (again : Opens l other) :
    name = other := by
  rw [Opens] at opens again
  rw [opens] at again
  cases again
  rfl

/-- Lines either hold a first one that ends a block or none. -/
theorem exists_closes (ls : List Text) :
    (∀ b ∈ ls, ¬Closes b) ∨
      ∃ body last rest, ls = body ++ last :: rest ∧ (∀ b ∈ body, ¬Closes b) ∧ Closes last := by
  induction ls with
  | nil => exact Or.inl nofun
  | cons l ls ih =>
    by_cases closes : Closes l
    · exact Or.inr ⟨[], l, ls, rfl, nofun, closes⟩
    · rcases ih with none | ⟨body, last, rest, rfl, inside, ends⟩
      · exact Or.inl (List.forall_mem_cons.2 ⟨closes, none⟩)
      · exact Or.inr ⟨l :: body, last, rest, rfl, List.forall_mem_cons.2 ⟨closes, inside⟩, ends⟩

/-- The first line that ends a block is determined by the lines. -/
theorem closes_unique {last' : Text} {body' rest rest' : List Text}
    (inside : ∀ b ∈ body, ¬Closes b) (closes : Closes last) (inside' : ∀ b ∈ body', ¬Closes b)
    (closes' : Closes last') (same : body ++ last :: rest = body' ++ last' :: rest') :
    body = body' ∧ rest = rest' := by
  induction body generalizing body' with
  | nil =>
    cases body' with
    | nil =>
      cases same
      exact ⟨rfl, rfl⟩
    | cons b body' =>
      cases same
      exact absurd closes (inside' last List.mem_cons_self)
  | cons b body ih =>
    obtain ⟨own, inside⟩ := List.forall_mem_cons.1 inside
    cases body' with
    | nil =>
      cases same
      exact absurd closes' own
    | cons b' body' =>
      obtain ⟨-, within⟩ := List.forall_mem_cons.1 inside'
      obtain ⟨rfl, further⟩ := List.cons.inj same
      obtain ⟨rfl, rfl⟩ := ih inside within further
      exact ⟨rfl, rfl⟩

theorem exists_splits (ls : List Text) : ∃ ts, Splits ls ts := by
  -- a pasted block takes several lines at once, so that the induction is on the number of lines
  induction n : ls.length using Nat.strongRecOn generalizing ls with
  | ind n ih =>
    subst n
    cases ls with
    | nil => exact ⟨[], .nil⟩
    | cons l ls =>
      obtain ⟨ts, rest⟩ := ih _ (Nat.lt_succ_self _) ls rfl
      by_cases blank : trim l = []
      · exact ⟨_, .blank blank rest⟩
      · by_cases opening : ∃ name, Opens l name
        · obtain ⟨name, opens⟩ := opening
          rcases exists_closes ls with inside | ⟨body, last, behind, rfl, inside, closes⟩
          · exact ⟨_, .unfinished opens inside⟩
          · have shorter : behind.length < (l :: (body ++ last :: behind)).length := by
              simp only [List.length_cons, List.length_append]
              omega
            obtain ⟨us, further⟩ := ih _ shorter behind rfl
            exact ⟨_, .pasted opens inside closes further⟩
        · exact ⟨_, .spoken blank (not_exists.1 opening) rest⟩

/-- Lines that start with an opening one are a block, with or without an end. -/
theorem Splits.of_opens (splits : Splits (l :: ls) ts) (opens : Opens l name) :
    (∃ body last rest us, ls = body ++ last :: rest ∧ (∀ b ∈ body, ¬Closes b) ∧ Closes last ∧
      Splits rest us ∧ ts = .pasted l name body :: us) ∨
    (∀ b ∈ ls, ¬Closes b) ∧ ts = [.unfinished l name ls] := by
  cases splits with
  | blank blank => exact absurd blank opens.filled
  | spoken _ plain => exact absurd opens (plain name)
  | pasted again inside closes rest =>
    rw [again.name_unique opens]
    exact Or.inl ⟨_, _, _, _, rfl, inside, closes, rest, rfl⟩
  | unfinished again inside =>
    rw [again.name_unique opens]
    exact Or.inr ⟨inside, rfl⟩

theorem Splits.unique (splits : Splits ls ts) (others : Splits ls us) : ts = us := by
  induction splits generalizing us with
  | nil =>
    cases others
    rfl
  | blank blank _ ih =>
    cases others with
    | blank _ rest => rw [ih rest]
    | spoken filled => exact absurd blank filled
    | pasted opens | unfinished opens => exact absurd blank opens.filled
  | spoken filled plain _ ih =>
    cases others with
    | blank blank => exact absurd blank filled
    | spoken _ _ rest => rw [ih rest]
    | pasted opens | unfinished opens => exact absurd opens (plain _)
  | @pasted l name last body ls ts opens inside closes _ ih =>
    rcases others.of_opens opens with
      ⟨body', last', rest', us', same, inside', closes', further, rfl⟩ | ⟨endless, -⟩
    · obtain ⟨rfl, rfl⟩ := closes_unique inside closes inside' closes' same
      rw [ih further]
    · exact absurd closes (endless last (List.mem_append_right _ List.mem_cons_self))
  | @unfinished l name body opens inside =>
    rcases others.of_opens opens with ⟨body', last', rest', us', rfl, -, closes', -⟩ | ⟨-, rfl⟩
    · exact absurd closes' (inside last' (List.mem_append_right _ List.mem_cons_self))
    · rfl

theorem existsUnique_splits (ls : List Text) : ∃! ts, Splits ls ts := by
  obtain ⟨ts, splits⟩ := exists_splits ls
  exact ⟨ts, splits, fun us others => others.unique splits⟩

end

/-- What is printed for a line that is not pasted. -/
def echo (l : Text) : Output := .out (line ("py> ".toList ++ trim l))

/-- What `.paste` answers. -/
def prompt (name : Text) : Output :=
  .out (line ("Pasting '".toList ++ name ++ "'. End with '.' on a line by itself.".toList))

/-- The output for what a command answers. -/
def replies (env : Surroundings) : Except Problem Text → List Output
  | .ok text => answer text
  | .error problem => [errorLine (problem.message env.shown)]

/-- The output for a conversion that left a session and an answer. -/
def reports (env : Surroundings) : Session × Except Problem Text → List Output
  | (s, .ok summary) => [.out (line summary ++ if s.quiet then [] else line (timing env.elapsed))]
  | (_, .error problem) => [errorLine (problem.message env.shown)]

/-- What a turn makes of a session, and what is printed. -/
def Turn.play (env : Surroundings) (s : Session) : Turn → Session × List Output
  | blank => (s, [])
  | spoken l =>
    match Command.parse l with
    | .error e => (s, [echo l, errorLine e.message])
    | .ok c => ((s.handle env c).1, echo l :: replies env (s.handle env c).2)
  | pasted l name body =>
    let converted := s.convert env name (unlines body)
    (converted.1, echo l :: prompt name :: reports env converted)
  | unfinished l name _ => (s, [echo l, prompt name])

/-- The turn ends the dialogue. -/
def Turn.Quits : Turn → Prop
  | spoken l => Command.parse l = .ok .quit
  | _ => False

instance : (t : Turn) → Decidable t.Quits
  | .blank | .pasted .. | .unfinished .. => inferInstanceAs (Decidable False)
  | .spoken l => inferInstanceAs (Decidable (Command.parse l = .ok .quit))

/-- The turns up to the first one that ends the dialogue. -/
def heard : List Turn → List Turn
  | [] => []
  | t :: ts => if t.Quits then [t] else t :: heard ts

def playAll (env : Surroundings) (s : Session) : List Turn → Session × List Output
  | [] => (s, [])
  | t :: ts =>
    let (s, output) := t.play env s
    let (s, more) := playAll env s ts
    (s, output ++ more)

/-- What a turn has to convert: a name and a source. -/
def Turn.source? : Turn → Option (Text × Text)
  | pasted _ name body => some (name, unlines body)
  | _ => none

/-- The turn is not a line that loads a file or removes a script. -/
def Turn.LeavesRecords : Turn → Prop
  | spoken l => ∀ c, Command.parse l = .ok c → (∀ path, c ≠ .load path) ∧ ∀ n, c ≠ .remove n
  | _ => True

/-- A dialogue that ends with the input says goodbye; then comes the farewell of the session. -/
def closing (ts : List Turn) (s : Session) : List Output :=
  (if ∃ t ∈ ts, t.Quits then [] else [.out (line "Goodbye!".toList)]) ++ run.answerless s.farewell

section

variable {env : Surroundings} {s : Session} {l name : Text} {body ls : List Text} {ts : List Turn}

theorem parse_trim (l : Text) : Command.parse (trim l) = Command.parse l := by
  rw [Command.parse, Command.parse, trim_trim]

theorem command_eq {c : Command} (plain : ∀ name, c ≠ .paste name) (d : Dialogue) :
    d.command env c =
      ({ d with session := (d.session.handle env c).1 },
        replies env (d.session.handle env c).2) := by
  unfold command
  cases c with
  | paste name => exact absurd rfl (plain name)
  | _ => rcases d.session.handle env _ with ⟨s', _ | _⟩ <;> rfl

theorem read_blank (blank : trim l = []) (s : Session) : (start s).read env l = (start s, []) :=
  if_pos blank

theorem read_spoken (filled : trim l ≠ []) (plain : ∀ name, ¬Opens l name) (s : Session) :
    (start s).read env l =
      (start ((Turn.spoken l).play env s).1, ((Turn.spoken l).play env s).2) := by
  have noBlock : (start s).paste = none := rfl
  rw [read, noBlock]
  simp only [if_neg filled, parse_trim, Turn.play]
  cases parsed : Command.parse l with
  | error e => rfl
  | ok c =>
    have other : ∀ name, c ≠ .paste name := by
      rintro name rfl
      exact plain name parsed
    simp only [command_eq other]
    rfl

theorem read_opens (opens : Opens l name) (s : Session) :
    (start s).read env l = (⟨s, some name, []⟩, [echo l, prompt name]) := by
  have noBlock : (start s).paste = none := rfl
  rw [Opens] at opens
  rw [read, noBlock]
  simp only [if_neg (Opens.filled opens), parse_trim, opens]
  rfl

theorem read_inside (inside : ¬Closes l) (s : Session) (buffer : Text) :
    read env ⟨s, some name, buffer⟩ l = (⟨s, some name, buffer ++ line l⟩, []) :=
  if_neg inside

theorem read_closes (closes : Closes l) (s : Session) (buffer : Text) :
    read env ⟨s, some name, buffer⟩ l =
      (start (s.convert env name buffer).1, reports env (s.convert env name buffer)) := by
  have ends : read env ⟨s, some name, buffer⟩ l = finishPaste env ⟨s, some name, buffer⟩ name :=
    if_pos closes
  rw [ends, finishPaste]
  rcases s.convert env name buffer with ⟨s', _ | _⟩ <;> rfl

theorem readAll_cons (running : s.running) (paste : Option Text) (buffer : Text) (l : Text)
    (ls : List Text) :
    readAll env ⟨s, paste, buffer⟩ (l :: ls) =
      let d := read env ⟨s, paste, buffer⟩ l
      ((d.1.readAll env ls).1, d.2 ++ (d.1.readAll env ls).2) :=
  if_pos running

theorem readAll_single (running : s.running) (paste : Option Text) (buffer l : Text) :
    readAll env ⟨s, paste, buffer⟩ [l] = read env ⟨s, paste, buffer⟩ l := by
  rw [readAll_cons running]
  simp [readAll]

/-- A dialogue whose session has ended does not read on. -/
theorem readAll_of_stopped {d : Dialogue} (stopped : d.session.running = false) (ls : List Text) :
    d.readAll env ls = (d, []) := by
  cases ls with
  | nil => rfl
  | cons l ls =>
    rw [readAll, stopped]
    rfl

theorem readAll_append (d : Dialogue) (ls ms : List Text) :
    d.readAll env (ls ++ ms) =
      let front := d.readAll env ls
      ((front.1.readAll env ms).1, front.2 ++ (front.1.readAll env ms).2) := by
  induction ls generalizing d with
  | nil => rfl
  | cons l ls ih =>
    by_cases running : d.session.running
    · rw [List.cons_append, readAll_cons running, readAll_cons running]
      simp only [ih, List.append_assoc]
    · have stopped : d.session.running = false := by simpa using running
      simp only [readAll_of_stopped stopped, List.nil_append]

/-- The lines of a block go into the buffer. -/
theorem readAll_inside (running : s.running) (inside : ∀ b ∈ body, ¬Closes b) (buffer : Text) :
    readAll env ⟨s, some name, buffer⟩ body = (⟨s, some name, buffer ++ unlines body⟩, []) := by
  induction body generalizing buffer with
  | nil => simp [readAll, unlines]
  | cons b body ih =>
    obtain ⟨own, inside⟩ := List.forall_mem_cons.1 inside
    rw [readAll_cons running, read_inside own]
    simp only [ih inside, unlines, List.flatMap_cons, line, List.append_assoc, List.nil_append]

theorem readAll_block (running : s.running) (opens : Opens l name)
    (inside : ∀ b ∈ body, ¬Closes b) :
    (start s).readAll env (l :: body) =
      (⟨s, some name, unlines body⟩, [echo l, prompt name]) := by
  rw [start, readAll_cons running, ← start, read_opens opens]
  simp only [readAll_inside running inside, List.nil_append, List.append_nil]

theorem running_load (s : Session) (path : Text) : (s.load env path).1.running = s.running := by
  unfold Session.load
  repeat' split
  all_goals rfl

theorem running_remove (s : Session) (r : Record) : (s.remove r).1.running = s.running := by
  unfold Session.remove
  split <;> rfl

theorem running_exportTo (s : Session) (r : Record) (folder : Text) :
    (s.exportTo r folder).1.running = s.running := by
  obtain ⟨disk, answer, made⟩ := Session.exists_exportTo s r folder
  rw [made]

/-- Only `.quit` ends a session. -/
theorem running_handle (s : Session) (c : Command) :
    (s.handle env c).1.running = if c = .quit then false else s.running := by
  cases c with
  | quit => rfl
  | load path => exact running_load s path
  | remove n =>
    rw [Session.handle]
    split
    · exact running_remove s _
    · rfl
  | «export» n folder =>
    rw [Session.handle]
    split
    · exact running_exportTo s _ folder
    · rfl
  | _ => rfl

theorem running_convert (s : Session) (name source : Text) :
    (s.convert env name source).1.running = s.running := by
  unfold Session.convert
  dsimp only
  split <;> rfl

/-- A session runs on behind a turn, unless the turn ends the dialogue. -/
theorem running_play (running : s.running) (t : Turn) :
    (t.play env s).1.running ↔ ¬t.Quits := by
  cases t with
  | blank | unfinished => simpa [Turn.play, Turn.Quits] using running
  | pasted l name body => simpa [Turn.play, Turn.Quits, running_convert] using running
  | spoken l =>
    cases parsed : Command.parse l with
    | error e => simpa [Turn.play, Turn.Quits, parsed] using running
    | ok c => simp [Turn.play, Turn.Quits, parsed, running_handle, running]

theorem running_playAll (running : s.running) (ts : List Turn) :
    (playAll env s (heard ts)).1.running ↔ ¬∃ t ∈ ts, t.Quits := by
  induction ts generalizing s with
  | nil => simpa [heard, playAll] using running
  | cons t ts ih =>
    by_cases quits : t.Quits
    · simp [heard, quits, playAll, running_play running]
    · have onward : (t.play env s).1.running := (running_play running t).2 quits
      simp [heard, quits, playAll, ih onward]

/-- From every session that runs, reading the lines plays the turns up to the first `.quit`. -/
def Follows (env : Surroundings) (ls : List Text) (ts : List Turn) : Prop :=
  ∀ s : Session, s.running →
    ((start s).readAll env ls).1.session = (playAll env s (heard ts)).1 ∧
      ((start s).readAll env ls).2 = (playAll env s (heard ts)).2

/-- Lines that are read as one turn, and leave no block open. -/
theorem Follows.cons {t : Turn} (follows : Follows env ls ts) (body : List Text)
    (turn : ∀ s : Session, s.running →
      (start s).readAll env body = (start (t.play env s).1, (t.play env s).2)) :
    Follows env (body ++ ls) (t :: ts) := by
  intro s running
  rw [readAll_append, turn s running]
  by_cases quits : t.Quits
  · have stopped : (start (t.play env s).1).session.running = false :=
      Bool.eq_false_iff.2 (mt (running_play running t).1 (not_not_intro quits))
    dsimp only
    rw [readAll_of_stopped stopped]
    simp [start, heard, quits, playAll]
  · have onward : (t.play env s).1.running := (running_play running t).2 quits
    obtain ⟨same, output⟩ := follows _ onward
    simp [heard, quits, playAll, same, output]

theorem follows_of_splits (env : Surroundings) (splits : Splits ls ts) : Follows env ls ts := by
  induction splits with
  | nil => exact fun s _ => ⟨rfl, rfl⟩
  | @blank l ls ts blank _ ih =>
    refine ih.cons [l] fun s running => ?_
    rw [start, readAll_single running]
    exact read_blank blank s
  | @spoken l ls ts filled plain _ ih =>
    refine ih.cons [l] fun s running => ?_
    rw [start, readAll_single running]
    exact read_spoken filled plain s
  | @pasted l name last body ls ts opens inside closes _ ih =>
    have whole : l :: (body ++ last :: ls) = (l :: body ++ [last]) ++ ls := by simp
    rw [whole]
    refine ih.cons _ fun s running => ?_
    rw [readAll_append, readAll_block running opens inside]
    dsimp only
    rw [readAll_single running, read_closes closes]
    rfl
  | @unfinished l name body opens inside =>
    intro s running
    rw [readAll_block running opens inside]
    exact ⟨rfl, rfl⟩

theorem run_of_splits (env : Surroundings) (splits : Splits ls ts) (running : s.running) :
    let played := playAll env s (heard ts)
    run env s ls = (played.1, played.2 ++ closing ts played.1) := by
  intro played
  obtain ⟨same, output⟩ := follows_of_splits env splits s running
  have ends : played.1.running ↔ ¬∃ t ∈ ts, t.Quits := running_playAll running ts
  have goodbye : ((start s).readAll env ls).1.session = played.1 := same
  simp only [run, goodbye, output, closing, List.append_assoc]
  by_cases quits : ∃ t ∈ ts, t.Quits
  · simp [quits, mt ends.1 (not_not_intro quits), played]
  · simp [quits, ends.2 quits, played]

/-- Lines behind a `.quit` that was heard change nothing. -/
theorem run_append_of_quits (splits : Splits ls ts) (running : s.running)
    (quits : ∃ t ∈ ts, t.Quits) (more : List Text) : run env s (ls ++ more) = run env s ls := by
  obtain ⟨same, -⟩ := follows_of_splits env splits s running
  have stopped : ((start s).readAll env ls).1.session.running = false := by
    rw [same]
    exact Bool.eq_false_iff.2 (mt (running_playAll running ts).1 (not_not_intro quits))
  rw [run, run, readAll_append]
  dsimp only
  rw [readAll_of_stopped stopped, List.append_nil]

theorem sound_play (sound : s.bench.Sound) (t : Turn) : (t.play env s).1.bench.Sound := by
  cases t with
  | blank | unfinished => exact sound
  | pasted l name body =>
    rw [Turn.play, Session.bench_convert]
    exact Workbench.sound_load sound _ _ _ _
  | spoken l =>
    rw [Turn.play]
    split
    · exact sound
    · next c _ => exact (Session.handled sound env c).sound sound

/-- The names and sources of the scripts of a session. -/
def sources (s : Session) : List (Text × Text) := s.records.map fun r => (r.name, r.source)

/-- A block that has ended adds one script, with its lines under the name that was given. -/
theorem sources_pasted (sound : s.bench.Sound) (l name : Text) (body : List Text) :
    sources ((Turn.pasted l name body).play env s).1 =
      sources s ++ [(name, unlines body)] := by
  rw [Turn.play, sources, Session.records, Session.bench_convert,
    Workbench.load_records sound.fresh, List.map_append]
  cases env.provider.tree (unlines body) <;> rfl

theorem sources_play (sound : s.bench.Sound) {t : Turn} (leaves : t.LeavesRecords) :
    sources (t.play env s).1 = sources s ++ t.source?.toList := by
  cases t with
  | blank | unfinished => exact (List.append_nil _).symm
  | pasted l name body => exact sources_pasted sound l name body
  | spoken l =>
    rw [Turn.play]
    split
    · exact (List.append_nil _).symm
    · next c parsed =>
      obtain ⟨noLoad, noRemoval⟩ := leaves c parsed
      have same := (Session.handled sound env c).shelf_eq noLoad noRemoval
      rw [sources, Session.records, same]
      exact (List.append_nil _).symm

theorem sources_playAll (sound : s.bench.Sound) (leave : ∀ t ∈ ts, t.LeavesRecords) :
    sources (playAll env s ts).1 = sources s ++ ts.filterMap Turn.source? := by
  induction ts generalizing s with
  | nil => exact (List.append_nil _).symm
  | cons t ts ih =>
    obtain ⟨leaves, leave⟩ := List.forall_mem_cons.1 leave
    have sound' : (t.play env s).1.bench.Sound := sound_play sound t
    have further := ih sound' leave
    rw [sources_play sound leaves, List.append_assoc] at further
    cases source : t.source? <;> simpa [playAll, source] using further

/-- Every input divides into turns in exactly one way, and a dialogue with a session that runs plays
them in order, up to the first `.quit`: a blank line does nothing, a line of its own is parsed and
run once, and the lines of a block that ends are converted as one source, none of them being run. A
block without an end is not converted, and nothing behind a `.quit` has an effect. So apart from
what lines load and remove, the scripts of the session are those of the blocks that ended, each with
its own lines. -/
theorem dialogue_in_turns (env : Surroundings) {s : Session} (running : s.running)
    (input : List Text) :
    (∃! ts, Splits input ts) ∧
      ∀ ts, Splits input ts →
        let played := playAll env s (heard ts)
        run env s input = (played.1, played.2 ++ closing ts played.1) ∧
          ((∃ t ∈ ts, t.Quits) → ∀ more, run env s (input ++ more) = run env s input) ∧
          (s.bench.Sound → (∀ t ∈ heard ts, t.LeavesRecords) →
            sources (run env s input).1 = sources s ++ (heard ts).filterMap Turn.source?) := by
  refine ⟨existsUnique_splits input, fun ts splits => ?_⟩
  have whole := run_of_splits env splits running
  refine ⟨whole, run_append_of_quits splits running, fun sound leave => ?_⟩
  rw [whole]
  exact sources_playAll sound leave

end

/-- Two blocks, the first with a `.quit` in it, then a `.quit` and a line behind it. -/
def twoBlocks : List Text :=
  List.map String.toList
    [".paste a", "x = 1", ".quit", "", " . ", "", ".paste b", ".", ".quit", ".list"]

def turnsOfTwoBlocks : List Turn :=
  [.pasted ".paste a".toList "a".toList (List.map String.toList ["x = 1", ".quit", ""]), .blank,
    .pasted ".paste b".toList "b".toList [], .spoken ".quit".toList, .spoken ".list".toList]

theorem splits_twoBlocks : Splits twoBlocks turnsOfTwoBlocks := by
  have quit : ∀ name, ¬Opens ".quit".toList name := nofun
  have list : ∀ name, ¬Opens ".list".toList name := nofun
  have opensFirst : Opens ".paste a".toList "a".toList := rfl
  have opensSecond : Opens ".paste b".toList "b".toList := rfl
  have filled : ∀ b ∈ List.map String.toList ["x = 1", ".quit", ""], ¬Closes b := by decide
  have empty : ∀ b ∈ ([] : List Text), ¬Closes b := nofun
  have closesFirst : Closes " . ".toList := by decide
  have closesSecond : Closes ['.'] := by decide
  have behind : Splits (List.map String.toList [".quit", ".list"])
      [.spoken ".quit".toList, .spoken ".list".toList] :=
    .spoken (by decide) quit (.spoken (by decide) list .nil)
  have second : Splits (List.map String.toList ["", ".paste b", ".", ".quit", ".list"]) _ :=
    .blank (by decide) (.pasted opensSecond empty closesSecond behind)
  exact .pasted opensFirst filled closesFirst second

open Session (sketchingSurroundings)

/-- Each block is loaded as it stands, under its own name, and nothing is read behind `.quit`. -/
theorem dialogue_in_turns_twoBlocks :
    let s := Session.start (Files.Disk.atFolder []) false
    let ended := run sketchingSurroundings s twoBlocks
    s.running ∧ Splits twoBlocks turnsOfTwoBlocks ∧
      sources ended.1 = [("a".toList, "x = 1\n.quit\n\n".toList), ("b".toList, [])] ∧
      run sketchingSurroundings s (twoBlocks ++ [".paste c".toList, ['.']]) = ended := by
  intro s ended
  have running : s.running := rfl
  obtain ⟨-, played⟩ := dialogue_in_turns sketchingSurroundings running twoBlocks
  obtain ⟨-, nothing, loaded⟩ := played _ splits_twoBlocks
  have quits : (Turn.spoken ".quit".toList).Quits := rfl
  have listed : .spoken ".quit".toList ∈ turnsOfTwoBlocks := by simp [turnsOfTwoBlocks]
  have leave : ∀ t ∈ heard turnsOfTwoBlocks, t.LeavesRecords := by
    have upTo : heard turnsOfTwoBlocks = turnsOfTwoBlocks.take 4 := rfl
    have quit : (Turn.spoken ".quit".toList).LeavesRecords := by
      intro c parsed
      cases quits.symm.trans parsed
      exact ⟨nofun, nofun⟩
    rw [upTo]
    exact List.forall_mem_cons.2 ⟨trivial, List.forall_mem_cons.2 ⟨trivial,
      List.forall_mem_cons.2 ⟨trivial, List.forall_mem_singleton.2 quit⟩⟩⟩
  exact ⟨running, splits_twoBlocks, loaded Workbench.sound_empty leave,
    nothing ⟨_, listed, quits⟩ _⟩

end Dialogue

end SwiftDraft.Shell
