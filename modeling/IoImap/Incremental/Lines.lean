import IoImap.Text.Separated

/-!
# The lines of an input that comes in pieces

A line goes up to and with its delimiter. A scanner keeps what it was fed and has not
given out, and searches it for the next line; a line longer than `max`, or the beginning
of one, makes the search fail. Whatever a scanner remembers of earlier searches, a lawful
one gives the lines of the whole input, up to the first that is too long: how the input
was cut into pieces does not show.
-/

namespace Incremental

variable {S β ε : Type*} [DecidableEq β] {delim : β} {max : Nat}

/-! ### The lines of a whole input -/

def terminated (delim : β) (input : List β) : List (List β) :=
  (input.splitOn delim).dropLast.map (· ++ [delim])

def unterminated (delim : β) (input : List β) : List β := (input.splitOn delim).getLastD []

theorem terminated_line {line : List β} (h : delim ∉ line) (rest : List β) :
    terminated delim (line ++ delim :: rest) = (line ++ [delim]) :: terminated delim rest := by
  rw [terminated, List.splitOn_append_cons_self_of_not_mem h,
    List.dropLast_cons_of_ne_nil (List.splitOn_ne_nil delim rest)]
  rfl

theorem unterminated_line {line : List β} (h : delim ∉ line) (rest : List β) :
    unterminated delim (line ++ delim :: rest) = unterminated delim rest := by
  obtain ⟨head, tail, hrest⟩ := List.exists_cons_of_ne_nil (List.splitOn_ne_nil delim rest)
  rw [unterminated, unterminated, List.splitOn_append_cons_self_of_not_mem h, hrest]
  simp

theorem terminated_of_notMem {input : List β} (h : delim ∉ input) : terminated delim input = [] := by
  rw [terminated, List.splitOn_eq_singleton h]
  rfl

theorem unterminated_of_notMem {input : List β} (h : delim ∉ input) :
    unterminated delim input = input := by
  rw [unterminated, List.splitOn_eq_singleton h]
  rfl

/-- No line is longer than `max`, nor what is behind the last one. -/
structure Fits (delim : β) (max : Nat) (input : List β) : Prop where
  terminated : ∀ line ∈ terminated delim input, line.length ≤ max
  unterminated : (unterminated delim input).length ≤ max

def fitting (delim : β) (max : Nat) (input : List β) : List (List β) :=
  (terminated delim input).takeWhile (·.length ≤ max)

theorem fits_line {line rest : List β} (hline : delim ∉ line) (hlen : line.length < max) :
    Fits delim max (line ++ delim :: rest) ↔ Fits delim max rest := by
  have hfirst : (line ++ [delim]).length ≤ max := by
    rw [List.length_append]
    exact hlen
  constructor
  · rintro ⟨hlines, hrest⟩
    rw [terminated_line hline] at hlines
    rw [unterminated_line hline] at hrest
    exact ⟨fun l hl => hlines l (List.mem_cons_of_mem _ hl), hrest⟩
  · rintro ⟨hlines, hrest⟩
    refine ⟨fun l hl => ?_, ?_⟩
    · rw [terminated_line hline] at hl
      rcases List.mem_cons.mp hl with rfl | hl
      · exact hfirst
      · exact hlines l hl
    · rw [unterminated_line hline]
      exact hrest

theorem fitting_line {line rest : List β} (hline : delim ∉ line) (hlen : line.length < max) :
    fitting delim max (line ++ delim :: rest) = (line ++ [delim]) :: fitting delim max rest := by
  have hfirst : (line ++ [delim]).length ≤ max := by
    rw [List.length_append]
    exact hlen
  rw [fitting, terminated_line hline, List.takeWhile_cons_of_pos (by simpa using hfirst), fitting]

/-- Nothing fits from a line on that is too long. -/
theorem not_fits_line {line : List β} (hline : delim ∉ line) (hlen : max ≤ line.length)
    (rest : List β) :
    fitting delim max (line ++ delim :: rest) = [] ∧ ¬ Fits delim max (line ++ delim :: rest) := by
  have hfirst : ¬ (line ++ [delim]).length ≤ max := by
    rw [List.length_append, List.length_singleton]
    omega
  constructor
  · rw [fitting, terminated_line hline, List.takeWhile_cons_of_neg (by simpa using hfirst)]
  · intro hfits
    have hlines := hfits.terminated
    rw [terminated_line hline] at hlines
    exact hfirst (hlines _ (List.mem_cons_self ..))

/-- Nothing fits from the beginning of a line on that is too long already. -/
theorem not_fits_beginning {start : List β} (hstart : delim ∉ start) (hlen : max < start.length)
    (more : List β) :
    fitting delim max (start ++ more) = [] ∧ ¬ Fits delim max (start ++ more) := by
  by_cases hmore : delim ∈ more
  · obtain ⟨line, rest, rfl, hline⟩ := List.eq_append_cons_of_mem hmore
    rw [← List.append_assoc]
    have hno : delim ∉ start ++ line := by
      rw [List.mem_append, not_or]
      exact ⟨hstart, hline⟩
    refine not_fits_line hno ?_ rest
    rw [List.length_append]
    omega
  · have hno : delim ∉ start ++ more := by
      rw [List.mem_append, not_or]
      exact ⟨hstart, hmore⟩
    constructor
    · rw [fitting, terminated_of_notMem hno]
      rfl
    · intro hfits
      have hrest := hfits.unterminated
      rw [unterminated_of_notMem hno, List.length_append] at hrest
      omega

theorem fits_of_notMem {input : List β} (h : delim ∉ input) (hlen : input.length ≤ max) :
    fitting delim max input = [] ∧ Fits delim max input := by
  constructor
  · rw [fitting, terminated_of_notMem h]
    rfl
  · refine ⟨fun l hl => ?_, ?_⟩
    · rw [terminated_of_notMem h] at hl
      cases hl
    · rw [unterminated_of_notMem h]
      exact hlen

/-! ### Scanners -/

class LineScanner (S : Type*) (β ε : outParam (Type*)) where
  buffer : S → List β
  feed : S → List β → S
  nextLine : S → Except ε (Option (List β)) × S
  nextLine_shorter : ∀ s line s', nextLine s = (.ok (some line), s') →
    (buffer s').length < (buffer s).length

open LineScanner

/-- What a search comes to, from what is buffered to what is left of it. -/
inductive NextLine (delim : β) (max : Nat) (err : ε) :
    List β → Except ε (Option (List β)) → List β → Prop where
  | line {line rest : List β} (hline : delim ∉ line) (hlen : line.length < max) :
      NextLine delim max err (line ++ delim :: rest) (.ok (some (line ++ [delim]))) rest
  | more {buf : List β} (hbuf : delim ∉ buf) (hlen : buf.length ≤ max) :
      NextLine delim max err buf (.ok none) buf
  | tooLong {line rest : List β} (hline : delim ∉ line) (hlen : max ≤ line.length) :
      NextLine delim max err (line ++ delim :: rest) (.error err) (line ++ delim :: rest)
  | endless {buf : List β} (hbuf : delim ∉ buf) (hlen : max < buf.length) :
      NextLine delim max err buf (.error err) buf

omit [DecidableEq β] in
theorem NextLine.length_le {err : ε} {buf buf' : List β} {result : Except ε (Option (List β))}
    (h : NextLine delim max err buf result buf') : buf'.length ≤ buf.length := by
  cases h with
  | line =>
    rw [List.length_append, List.length_cons]
    omega
  | more => exact Nat.le_refl _
  | tooLong => exact Nat.le_refl _
  | endless => exact Nat.le_refl _

omit [DecidableEq β] in
theorem NextLine.length_le_max {err : ε} {buf buf' : List β}
    (h : NextLine delim max err buf (.ok none) buf') : buf'.length ≤ max := by
  cases h with
  | more _ hlen => exact hlen

/-- The scanners in a state that `Valid` describes: it stays so, and every search is one
of the whole buffer. -/
structure LawfulLineScanner [LineScanner S β ε] (delim : β) (max : Nat) (err : ε)
    (Valid : S → Prop) : Prop where
  feed : ∀ {s : S}, Valid s → ∀ bytes, Valid (feed s bytes) ∧ buffer (feed s bytes) = buffer s ++ bytes
  nextLine : ∀ {s : S}, Valid s →
    NextLine delim max err (buffer s) (nextLine s).1 (buffer (nextLine s).2) ∧ Valid (nextLine s).2

section Scan

variable [LineScanner S β ε]

/-- The lines that a scanner gives out before it finds none or fails. -/
def lines (s : S) : List (List β) × Option ε × S :=
  match _h : nextLine s with
  | (.error err, s') => ([], some err, s')
  | (.ok none, s') => ([], none, s')
  | (.ok (some line), s') => (line :: (lines s').1, (lines s').2)
termination_by (buffer s).length
decreasing_by all_goals exact nextLine_shorter s line s' _h

/-- The lines that a scanner gives out while it is fed the pieces, until it fails. -/
def scan (s : S) : List (List β) → List (List β) × Option ε
  | [] => ((lines s).1, (lines s).2.1)
  | bytes :: pieces =>
    match (lines s).2 with
    | (some err, _) => ((lines s).1, some err)
    | (none, s') => ((lines s).1 ++ (scan (feed s' bytes) pieces).1, (scan (feed s' bytes) pieces).2)

variable {err : ε} {Valid : S → Prop}

/-- The lines given out are the first of the input, whatever comes behind what is
buffered; behind them is what is left, or a line that is too long. -/
theorem LawfulLineScanner.lines_spec (hlawful : LawfulLineScanner delim max err Valid) {s : S}
    (h : Valid s) :
    (∃ s', (lines s).2 = (none, s') ∧ Valid s' ∧ delim ∉ buffer s' ∧ (buffer s').length ≤ max ∧
      ∀ more, fitting delim max (buffer s ++ more) =
          (lines s).1 ++ fitting delim max (buffer s' ++ more) ∧
        (Fits delim max (buffer s ++ more) ↔ Fits delim max (buffer s' ++ more))) ∨
    (∃ s', (lines s).2 = (some err, s') ∧
      ∀ more, fitting delim max (buffer s ++ more) = (lines s).1 ∧
        ¬ Fits delim max (buffer s ++ more)) := by
  fun_induction lines s with
  | case1 s e s' hn =>
    obtain ⟨hnext, -⟩ := hlawful.nextLine h
    rw [hn] at hnext
    generalize buffer s = buf at hnext ⊢
    generalize buffer (Except.error e, s').2 = buf' at hnext
    refine .inr ⟨s', ?_⟩
    cases hnext with
    | @tooLong line rest hline hlen =>
      refine ⟨rfl, fun more => ?_⟩
      rw [List.append_assoc, List.cons_append]
      exact not_fits_line hline hlen (rest ++ more)
    | endless hbuf hlen => exact ⟨rfl, not_fits_beginning hbuf hlen⟩
  | case2 s s' hn =>
    obtain ⟨hnext, hvalid⟩ := hlawful.nextLine h
    rw [hn] at hnext hvalid
    have hsame : buffer s = buffer s' ∧ delim ∉ buffer s' ∧ (buffer s').length ≤ max := by
      generalize buffer s = buf at hnext ⊢
      cases hnext with
      | more hbuf hlen => exact ⟨rfl, hbuf, hlen⟩
    refine .inl ⟨s', rfl, hvalid, hsame.2.1, hsame.2.2, fun more => ?_⟩
    rw [hsame.1]
    exact ⟨rfl, Iff.rfl⟩
  | case3 s line s' hn ih =>
    obtain ⟨hnext, hvalid⟩ := hlawful.nextLine h
    rw [hn] at hnext hvalid
    obtain ⟨before, rfl, hbuf, hline, hlen⟩ : ∃ before, line = before ++ [delim] ∧
        buffer s = before ++ delim :: buffer s' ∧ delim ∉ before ∧ before.length < max := by
      generalize buffer s = buf at hnext ⊢
      cases hnext with
      | line hline hlen => exact ⟨_, rfl, rfl, hline, hlen⟩
    have hsplit (more : List β) : buffer s ++ more = before ++ delim :: (buffer s' ++ more) := by
      rw [hbuf, List.append_assoc, List.cons_append]
    rcases ih hvalid with ⟨t, hr, ht, hno, hle, hmore⟩ | ⟨t, hr, hmore⟩
    · refine .inl ⟨t, hr, ht, hno, hle, fun more => ?_⟩
      rw [hsplit, fitting_line hline hlen, fits_line hline hlen, (hmore more).1]
      exact ⟨rfl, (hmore more).2⟩
    · refine .inr ⟨t, hr, fun more => ?_⟩
      rw [hsplit, fitting_line hline hlen, fits_line hline hlen, (hmore more).1]
      exact ⟨rfl, (hmore more).2⟩

/-- However an input is cut into pieces, the scanner gives out the lines of what is
buffered and the input, up to the first that is too long; it fails when there is one, or
the beginning of one, and otherwise does not. -/
def GivesLines (delim : β) (max : Nat) (err : ε) (s : S) : Prop :=
  ∀ pieces : List (List β),
    (scan s pieces).1 = fitting delim max (buffer s ++ pieces.flatten) ∧
      ((scan s pieces).2 = none ∧ Fits delim max (buffer s ++ pieces.flatten) ∨
        (scan s pieces).2 = some err ∧ ¬ Fits delim max (buffer s ++ pieces.flatten))

theorem LawfulLineScanner.givesLines (hlawful : LawfulLineScanner delim max err Valid) {s : S}
    (h : Valid s) : GivesLines delim max err s := by
  intro pieces
  induction pieces generalizing s with
  | nil =>
    rw [List.flatten_nil]
    rcases hlawful.lines_spec h with ⟨s', hr, -, hno, hle, hmore⟩ | ⟨s', hr, hmore⟩
    · obtain ⟨hfitting, hfits⟩ := fits_of_notMem hno hle
      obtain ⟨hlines, hiff⟩ := hmore []
      rw [List.append_nil (buffer s')] at hlines hiff
      rw [scan, hr, hlines, hfitting, List.append_nil, hiff]
      exact ⟨rfl, .inl ⟨rfl, hfits⟩⟩
    · rw [scan, hr, (hmore []).1]
      exact ⟨rfl, .inr ⟨rfl, (hmore []).2⟩⟩
  | cons bytes pieces ih =>
    rw [List.flatten_cons]
    rcases hlawful.lines_spec h with ⟨s', hr, hvalid, -, -, hmore⟩ | ⟨s', hr, hmore⟩
    · obtain ⟨hfed, hbuf⟩ := hlawful.feed hvalid bytes
      have hrest := ih hfed
      obtain ⟨hlines, hiff⟩ := hmore (bytes ++ pieces.flatten)
      rw [hbuf, List.append_assoc, ← hiff] at hrest
      rw [scan, hr, hlines, ← hrest.1]
      exact ⟨rfl, hrest.2⟩
    · rw [scan, hr, (hmore _).1]
      exact ⟨rfl, .inr ⟨rfl, (hmore _).2⟩⟩

end Scan
end Incremental
