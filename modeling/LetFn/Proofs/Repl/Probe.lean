import LetFn.Proofs.Repl.Command

/-!
# Reading a program line by line

A program that is typed in line by line is cut into chunks: each input takes lines until they are
a module (`Reading.resume_lines`). Nothing is lost that way. The chunks are all the lines, each is a
module when its lines are joined and read again, and the statements of the chunks are those of the
program (`Reading.all_lines`).
-/

namespace LetFn

/-! ## Programs in parts

When a program is typed in parts, each a module of its own, the statements of the parts are those of
the whole. -/

namespace Node

theorem forall₂_of_sameAll {xs ys : List Node} (h : sameAll xs ys = true) :
    List.Forall₂ (fun x y => x.same y = true) xs ys := by
  induction xs generalizing ys with
  | nil => cases ys <;> simp_all [sameAll]
  | cons x rest ih =>
    cases ys with
    | nil => simp [sameAll] at h
    | cons y ys =>
      rw [sameAll, Bool.and_eq_true] at h
      exact .cons h.1 (ih h.2)

theorem areKnown_stmts {lines : List Bytes} {m : Node} (h : parseLines lines = .ok m) :
    areKnown m.stmts = true := by
  have hknown := isKnown_of_isWellFormed (isWellFormed_of_parseLines h)
  cases m <;> simp_all [isKnown, stmts, areKnown]

end Node

theorem stmts_of_parseLines_nil {m : Node} (hm : parseLines [] = .ok m) : m.stmts = [] := by
  obtain ⟨stmts, hstmts, rfl⟩ := Parser.module_eq_ok.mp (Lexed.parse_eq_ok.mp hm).2
  have hnil : Parser.program [] = .ok (stmts, []) := hstmts
  rw [Parser.program_nil] at hnil
  cases hnil
  rfl

/-- If a program is cut so that each part is a module, the parts have its statements. -/
theorem stmts_of_parts {parts : List (List Bytes)} {modules : List Node} {m : Node}
    (hparts : List.Forall₂ (fun part n => parseLines part = .ok n) parts modules)
    (hm : parseLines parts.flatten = .ok m) :
    List.Forall₂ (fun x y => x.same y = true) (modules.flatMap Node.stmts) m.stmts := by
  apply Node.forall₂_of_sameAll
  apply Node.sameAll_of_eraseAll_eq
  · clear hm
    induction hparts with
    | nil => rfl
    | cons hpart _ ih =>
      rw [List.flatMap_cons, Node.areKnown_append, Node.areKnown_stmts hpart, ih]
      rfl
  · induction hparts generalizing m with
    | nil =>
      rw [stmts_of_parseLines_nil hm]
      rfl
    | cons hpart _ ih =>
      obtain ⟨b, hb, hstmts⟩ := parseLines_cut hpart hm
      rw [List.flatMap_cons, Node.eraseAll_append, ih hb, hstmts]

namespace Repl

open Text

/-! ## One input

Each input ends with the first line that makes what was typed complete. Lines that are a module are
not read past their end, so the inputs cut the lines into modules. -/

theorem isIncomplete_nil : isIncomplete [] = false := by decide +kernel

theorem extend_join {lines : List Bytes} (line : Bytes)
    (h : lines = [] ∨ isIncomplete (join [newline] lines) = true) :
    extend (join [newline] lines) line = join [newline] (lines ++ [line]) := by
  rcases h with rfl | h
  · simp [extend, join, List.intercalate]
  · have hne : lines ≠ [] := by
      rintro rfl
      exact absurd h (by simp [join, List.intercalate, isIncomplete_nil])
    have hpending : join [newline] lines ≠ [] := by
      intro hnil
      rw [hnil, isIncomplete_nil] at h
      cases h
    rw [join_concat hne, extend, if_neg (by simpa using hpending)]

/-- Lines that further lines make a module are incomplete, unless they are one already. -/
theorem isIncomplete_or_parseLines {lines more : List Bytes} {m : Node} (hne : lines ≠ [])
    (hlines : ∀ line ∈ lines, newline ∉ line ∧ line.length < Source.limit)
    (hm : parseLines (lines ++ more) = .ok m) :
    isIncomplete (join [newline] lines) = true ∨ ∃ a, parseLines lines = .ok a := by
  have hlex := fault_of_completable hm
  rcases hmodule : Parser.module (Lexed.ofLines lines).tokens with ⟨expected, rest⟩ | a
  · left
    obtain rfl := rest_of_completable hm hmodule
    rw [isIncomplete_iff, Source.readable_join hne hlines]
    exact ⟨hlex, expected, hmodule⟩
  · exact .inr ⟨a, Lexed.parse_eq_ok.mpr ⟨hlex, hmodule⟩⟩

theorem not_isIncomplete_of_parseLines {lines : List Bytes} {a : Node} (hne : lines ≠ [])
    (hlines : ∀ line ∈ lines, newline ∉ line ∧ line.length < Source.limit)
    (ha : parseLines lines = .ok a) : isIncomplete (join [newline] lines) = false := by
  rw [isIncomplete, parseText_eq, Source.readable_join hne hlines, ha]

namespace Reading

/-- Reading on takes lines until what has been read is a module. -/
theorem resume_lines {pending lines : List Bytes} {m : Node} (hne : lines ≠ [])
    (hlines : ∀ line ∈ pending ++ lines, newline ∉ line ∧ line.length < Source.limit)
    (hpending : pending = [] ∨ isIncomplete (join [newline] pending) = true)
    (hm : parseLines (pending ++ lines) = .ok m) :
    ∃ taken left a, taken ≠ [] ∧ lines = taken ++ left ∧ parseLines (pending ++ taken) = .ok a ∧
      (resume (join [newline] pending) (lines.map .line)).source =
        some (join [newline] (pending ++ taken)) ∧
      (resume (join [newline] pending) (lines.map .line)).rest = left.map .line := by
  -- Each line goes from what is to come to what is pending; together they stay the same program.
  induction lines generalizing pending with
  | nil => exact absurd rfl hne
  | cons line rest ih =>
    have hsource := extend_join line hpending
    have hassoc : pending ++ line :: rest = pending ++ [line] ++ rest := by simp
    rw [hassoc] at hm hlines
    have hfront : ∀ l ∈ pending ++ [line], newline ∉ l ∧ l.length < Source.limit :=
      fun l hl => hlines l (List.mem_append_left _ hl)
    have hsome : pending ++ [line] ≠ [] := by simp
    rw [List.map_cons, resume, probe_eq, hsource]
    rcases hincomplete : isIncomplete (join [newline] (pending ++ [line])) with _ | _
    · rcases isIncomplete_or_parseLines hsome hfront hm with htrue | ⟨a, ha⟩
      · rw [hincomplete] at htrue
        cases htrue
      · exact ⟨[line], rest, a, by simp, rfl, ha, rfl, rfl⟩
    · have hrest : rest ≠ [] := by
        rintro rfl
        rw [List.append_nil] at hm
        rw [not_isIncomplete_of_parseLines hsome hfront hm] at hincomplete
        cases hincomplete
      obtain ⟨taken, left, a, -, hsplit, ha, hread, hleft⟩ := ih hrest hlines (.inr hincomplete) hm
      rw [List.append_assoc] at ha hread
      refine ⟨line :: taken, left, a, by simp, by rw [hsplit]; rfl, ha, hread, hleft⟩

theorem all_of_none {answers : List Answer} (h : (start answers).source = none) :
    all answers = [start answers] := by
  rw [all]
  split
  · rfl
  · next hsome =>
    rw [h] at hsome
    cases hsome

theorem all_of_some {answers : List Answer} {source : Bytes}
    (h : (start answers).source = some source) :
    all answers = start answers :: all (start answers).rest := by
  rw [all]
  split
  · next hnone =>
    rw [h] at hnone
    cases hnone
  · rfl

/-- Input after input is a module, as long as the lines that are left are one. -/
theorem exists_chunks {lines : List Bytes} {m : Node}
    (hlines : ∀ line ∈ lines, newline ∉ line ∧ line.length < Source.limit)
    (hm : parseLines lines = .ok m) :
    ∃ (chunks : List (List Bytes)) (modules : List Node),
      chunks.flatten = lines ∧ [] ∉ chunks ∧
      (all (lines.map .line)).map Reading.source =
        chunks.map (fun chunk => some (join [newline] chunk)) ++ [none] ∧
      List.Forall₂ (fun chunk n => parseLines chunk = .ok n ∧
        parseText (join [newline] chunk) = .ok n) chunks modules := by
  by_cases hne : lines = []
  · subst hne
    refine ⟨[], [], rfl, by simp, ?_, .nil⟩
    rw [all_of_none rfl]
    rfl
  · obtain ⟨taken, left, a, htaken, hsplit, ha, hsource, hleft⟩ :=
      @resume_lines [] lines m hne hlines (.inl rfl) hm
    have hshorter : left.length < lines.length := by
      have hpos := List.length_pos_iff.mpr htaken
      rw [hsplit, List.length_append]
      omega
    rw [hsplit] at hm
    rw [hsplit, List.forall_mem_append] at hlines
    -- The lines that are left are a module again, because those taken are one.
    obtain ⟨b, hb, -⟩ := parseLines_cut ha hm
    obtain ⟨chunks, modules, hflatten, hchunks, hall, hparse⟩ := exists_chunks hlines.2 hb
    refine ⟨taken :: chunks, a :: modules, ?_, ?_, ?_, ?_⟩
    · rw [List.flatten_cons, hflatten, hsplit]
    · rw [List.mem_cons, not_or]
      exact ⟨htaken.symm, hchunks⟩
    · have hstart : (start (lines.map .line)).source = some (join [newline] taken) := hsource
      have hrest : (start (lines.map .line)).rest = left.map .line := hleft
      rw [all_of_some hstart, List.map_cons, hstart, hrest, hall]
      rfl
    · refine .cons ⟨ha, ?_⟩ hparse
      rw [parseText_eq, Source.readable_join htaken hlines.1]
      exact ha
termination_by lines.length

end Reading

/-- A program that is read line by line comes in chunks, which are all of its lines. Each chunk is
a module, and their statements in order are those of the program. -/
theorem Reading.all_lines {lines : List Bytes} {m : Node}
    (hlines : ∀ line ∈ lines, newline ∉ line ∧ line.length < Source.limit)
    (hm : parseLines lines = .ok m) :
    ∃ (chunks : List (List Bytes)) (modules : List Node),
      chunks.flatten = lines ∧ [] ∉ chunks ∧
      (all (lines.map .line)).map Reading.source =
        chunks.map (fun chunk => some (join [newline] chunk)) ++ [none] ∧
      List.Forall₂ (fun chunk n => parseText (join [newline] chunk) = .ok n) chunks modules ∧
      List.Forall₂ (fun x y => x.same y = true) (modules.flatMap Node.stmts) m.stmts := by
  obtain ⟨chunks, modules, rfl, hchunks, hall, hparse⟩ := exists_chunks hlines hm
  refine ⟨chunks, modules, rfl, hchunks, hall, ?_, ?_⟩
  · exact hparse.imp fun _ _ h => h.2
  · exact stmts_of_parts (hparse.imp fun _ _ h => h.1) hm

/-- Two statements that go over several lines, with an empty line and a comment in between. -/
def typedLines : List Bytes :=
  [Text.utf8 "let twice = fn(a: int): int \x7b", Text.utf8 "a * 2;", Text.utf8 "\x7d;", [],
   Text.utf8 "(twice // :)", Text.utf8 "+ 1);"]

theorem Reading.all_typedLines :
    (∀ line ∈ typedLines, newline ∉ line ∧ line.length < Source.limit) ∧
      ∃ m, parseLines typedLines = .ok m ∧ m.stmts.length = 2 ∧
        ∃ (chunks : List (List Bytes)) (modules : List Node),
          chunks.flatten = typedLines ∧
          (all (typedLines.map .line)).map Reading.source =
            chunks.map (fun chunk => some (join [newline] chunk)) ++ [none] ∧
          List.Forall₂ (fun x y => x.same y = true) (modules.flatMap Node.stmts) m.stmts := by
  have hlines : ∀ line ∈ typedLines, newline ∉ line ∧ line.length < Source.limit := by
    decide +kernel
  have hcount : (parseLines typedLines).toOption.map (·.stmts.length) = some 2 := by
    decide +kernel
  refine ⟨hlines, ?_⟩
  rcases hm : parseLines typedLines with f | m
  · rw [hm] at hcount
    cases hcount
  · rw [hm] at hcount
    obtain ⟨chunks, modules, hflatten, -, hall, -, hstmts⟩ := all_lines hlines hm
    exact ⟨m, rfl, Option.some.inj hcount, chunks, modules, hflatten, hall, hstmts⟩

end Repl

end LetFn
