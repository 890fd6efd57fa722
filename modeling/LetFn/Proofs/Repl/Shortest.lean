import LetFn.Proofs.Repl.Probe

/-!
# Reading stops as soon as it can

Reading an input ends with the first reply that is no line, or whose line leaves nothing that ended
too early (`EndsAt`). No earlier reply ends it, whatever was typed before, and all that it comes to
can be said from the replies up to that one (`Reading.start_shortest`). That commands are looked for
first does not show, since a command never ends too early.

A source ends too early if it does not parse, for want of more (`EndsEarly`). The proof goes through
the replies one by one, with the lines read so far in front of them (`resume_shortest`): either
there are none, or they end too early, for otherwise reading would have stopped.
-/

namespace LetFn.Repl

open Text

/-- The line that a prompt was answered with. -/
def Answer.line? : Answer → Option Bytes
  | line text => some text
  | interrupted => none

namespace Reading

/-- The lines among the first replies, joined. -/
def typed (answers : List Answer) (n : Nat) : Bytes :=
  join [newline] ((answers.take n).filterMap Answer.line?)

/-- The source does not parse, and it is at its end that it fails: more could follow. -/
def EndsEarly (source : Bytes) : Prop :=
  ∃ f, parseText source = .error f ∧ f.cause.isIncomplete = true

/-- Reading may end with the reply behind `n` others: it is no line, or the lines up to it are no
source that ends too early. -/
def EndsAt (answers : List Answer) (n : Nat) : Prop :=
  ∀ line, answers[n]? = some (.line line) → ¬EndsEarly (typed answers (n + 1))

/-- The source, if reading ends with the reply behind `n` others. -/
def sourceAt (answers : List Answer) (n : Nat) : Option Bytes :=
  match answers[n]? with
  | some (.line _) => some (typed answers (n + 1))
  | some .interrupted => some []
  | none => none

/-! ## The reply behind some lines

Where reading stands is told by the lines before. The induction is on the replies that are left,
with those lines in the statement. -/

theorem isIncomplete_eq_true_iff {source : Bytes} :
    isIncomplete source = true ↔ EndsEarly source := by
  rw [isIncomplete, EndsEarly]
  rcases parseText source with f | m <;> simp

/-- What ended too early is not empty. -/
theorem after_of_isIncomplete {source : Bytes} (h : isIncomplete source = true) :
    Prompt.after source = .further := by
  cases source with
  | nil =>
    rw [isIncomplete_nil] at h
    cases h
  | cons b rest => rfl

theorem getElem?_behind (before : List Bytes) (answers : List Answer) :
    (before.map Answer.line ++ answers)[before.length]? = answers.head? := by
  rw [List.getElem?_append_right (by simp), List.length_map, Nat.sub_self, List.head?_eq_getElem?]

theorem typed_behind (before : List Bytes) (line : Bytes) (rest : List Answer) :
    typed (before.map .line ++ .line line :: rest) (before.length + 1) =
      join [newline] (before ++ [line]) := by
  have htake : (before.map Answer.line ++ .line line :: rest).take (before.length + 1) =
      (before ++ [line]).map .line := by
    rw [List.map_append, List.map_singleton, List.append_cons]
    exact List.take_left' (by simp)
  have hlines : Answer.line? ∘ Answer.line = some := rfl
  rw [typed, htake, List.filterMap_map, hlines, List.filterMap_some]

/-- Where there is no line, reading may end. -/
theorem endsAt_of_no_line {answers : List Answer} {n : Nat}
    (h : ∀ line, answers[n]? ≠ some (.line line)) : EndsAt answers n :=
  fun line hline => absurd hline (h line)

/-- Behind some lines, one more line ends reading unless all of them end too early. -/
theorem endsAt_behind (before : List Bytes) (line : Bytes) (rest : List Answer) :
    EndsAt (before.map .line ++ .line line :: rest) before.length ↔
      ¬EndsEarly (join [newline] (before ++ [line])) := by
  have hreply := getElem?_behind before (.line line :: rest)
  rw [EndsAt, typed_behind, hreply]
  constructor
  · intro h
    exact h line rfl
  · intro h _ _
    exact h

/-- Reading on from some lines ends with the first reply it can end with. -/
theorem resume_shortest (answers : List Answer) {before : List Bytes}
    (hbefore : before = [] ∨ isIncomplete (join [newline] before) = true) :
    ∃ n, EndsAt (before.map .line ++ answers) (before.length + n) ∧
      (∀ m < n, ¬EndsAt (before.map .line ++ answers) (before.length + m)) ∧
      resume (join [newline] before) answers =
        ⟨.after (join [newline] before) :: .replicate n .further,
          sourceAt (before.map .line ++ answers) (before.length + n), answers.drop (n + 1)⟩ := by
  -- Each line that is read goes over to those before; together they stay the same replies.
  induction answers generalizing before with
  | nil =>
    have hreply := getElem?_behind before []
    refine ⟨0, ?_, fun m hm => absurd hm (Nat.not_lt_zero m), ?_⟩
    · apply endsAt_of_no_line
      intro line h
      rw [Nat.add_zero, hreply] at h
      cases h
    · rw [sourceAt, Nat.add_zero, hreply]
      rfl
  | cons answer rest ih =>
    have hreply := getElem?_behind before (answer :: rest)
    cases answer with
    | interrupted =>
      refine ⟨0, ?_, fun m hm => absurd hm (Nat.not_lt_zero m), ?_⟩
      · apply endsAt_of_no_line
        intro line h
        rw [Nat.add_zero, hreply] at h
        cases h
      · rw [sourceAt, Nat.add_zero, hreply]
        rfl
    | line line =>
      have hsource := extend_join line hbefore
      have hends := endsAt_behind before line rest
      rw [← isIncomplete_eq_true_iff] at hends
      rw [resume, probe_eq, hsource]
      rcases hincomplete : isIncomplete (join [newline] (before ++ [line])) with _ | _
      · -- The lines are what they are, so this reply is the one.
        refine ⟨0, ?_, fun m hm => absurd hm (Nat.not_lt_zero m), ?_⟩
        · rw [Nat.add_zero, hends, hincomplete]
          exact Bool.false_ne_true
        · rw [sourceAt, Nat.add_zero, hreply, List.head?_cons, typed_behind]
          rfl
      · -- The lines end too early, so reading goes on behind them.
        obtain ⟨n, hend, hfirst, hresume⟩ := ih (.inr hincomplete)
        have hreplies : (before ++ [line]).map Answer.line ++ rest =
            before.map .line ++ .line line :: rest := by simp
        have hnumber (m : Nat) : (before ++ [line]).length + m = before.length + (m + 1) := by
          rw [List.length_append, List.length_singleton, Nat.add_assoc, Nat.add_comm 1 m]
        rw [hreplies] at hend hfirst hresume
        simp only [hnumber] at hend hfirst hresume
        refine ⟨n + 1, hend, ?_, ?_⟩
        · intro m hm
          cases m with
          | zero =>
            rw [Nat.add_zero, hends, hincomplete]
            exact not_not_intro rfl
          | succ m => exact hfirst m (Nat.lt_of_succ_lt_succ hm)
        · rw [if_pos rfl]
          simp only [hresume, after_of_isIncomplete hincomplete]
          rfl

/-- Reading takes replies up to the first one it can end with. The first prompt asks for that of a
source, the others for more of it. To look for commands first changes nothing. -/
theorem start_shortest (answers : List Answer) :
    (∃ n, EndsAt answers n ∧ (∀ m < n, ¬EndsAt answers m) ∧
      start answers =
        ⟨.first :: .replicate n .further, sourceAt answers n, answers.drop (n + 1)⟩) ∧
      ∀ source, ¬(isCommand source = true ∧ EndsEarly source) := by
  constructor
  · obtain ⟨n, hend, hfirst, hstart⟩ := @resume_shortest answers [] (.inl rfl)
    simp only [List.length_nil, List.map_nil, List.nil_append, Nat.zero_add] at hend hfirst hstart
    exact ⟨n, hend, hfirst, hstart⟩
  · rintro source ⟨hcommand, hearly⟩
    rw [← isIncomplete_eq_true_iff, isIncomplete_of_isCommand hcommand] at hearly
    cases hearly

end Reading

end LetFn.Repl
