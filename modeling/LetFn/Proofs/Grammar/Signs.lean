import LetFn.Proofs.Grammar

/-!
# Signs

A minus sign in front of an atom is a subtraction from `0`, and a plus sign is nothing, so a tree
does not tell how many signs its source had. The relations here are those of the grammar with one
number more, which counts the uses of the two rules for signs in a derivation; with the number `0`
they are the grammar without these rules. The counted grammar derives what the grammar does
(`module_iff_exists_signs`).
-/

namespace LetFn.Grammar

namespace Signed

/-- Arithmetic with some number of signs. -/
inductive Arith : Nat → Layer → List Word → Node → Prop
  | term {n : Nat} {ws : List Word} {x : Node} : Arith n .term ws x → Arith n .arith ws x
  | sum {m n : Nat} {us vs : List Word} {x y : Node} {op : Operator} : Arith m .arith us x →
      op ∈ [Operator.add, .sub] → Arith n .term vs y →
      Arith (m + n) .arith (us ++ .operator op :: vs) (.expression .unknown op x y)
  | factor {n : Nat} {ws : List Word} {x : Node} : Arith n .factor ws x → Arith n .term ws x
  | product {m n : Nat} {us vs : List Word} {x y : Node} {op : Operator} : Arith m .term us x →
      op ∈ [Operator.mul, .div, .mod] → Arith n .factor vs y →
      Arith (m + n) .term (us ++ .operator op :: vs) (.expression .unknown op x y)
  | atom {n : Nat} {ws : List Word} {x : Node} : Arith n .atom ws x → Arith n .factor ws x
  | power {m n : Nat} {us vs : List Word} {x y : Node} : Arith m .factor us x →
      Arith n .atom vs y →
      Arith (m + n) .factor (us ++ .operator .pow :: vs) (.expression .unknown .pow x y)
  | literal (text : Bytes) : Arith 0 .atom [.literal text] (.literal .unknown text)
  | minus {n : Nat} {ws : List Word} {x : Node} : Arith n .atom ws x →
      Arith (n + 1) .atom (.operator .sub :: ws)
        (.expression .unknown .sub (.literal .unknown (Text.utf8 "0")) x)
  | plus {n : Nat} {ws : List Word} {x : Node} : Arith n .atom ws x →
      Arith (n + 1) .atom (.operator .add :: ws) x
  | parens {n : Nat} {ws : List Word} {x : Node} : Arith n .arith ws x →
      Arith n .atom (.operator .lparen :: ws ++ [.operator .rparen]) x

mutual

/-- A block, a function literal or arithmetic with some number of signs. -/
inductive Expression : Nat → List Word → Node → Prop
  | block {n : Nat} {ws : List Word} {stmts : List Node} : Block n ws stmts →
      Expression n ws (.block .unknown stmts)
  | lambda {n : Nat} {ws : List Word} {x : Node} : Lambda n ws x → Expression n ws x
  | arith {n : Nat} {ws : List Word} {x : Node} : Arith n .arith ws x → Expression n ws x

/-- A function literal with some number of signs. -/
inductive Lambda : Nat → List Word → Node → Prop
  | mk {n : Nat} {us vs : List Word} {params : List TypedName} {body : List Node} (ret : Bytes) :
      Params us params → Block n vs body →
      Lambda n (.operator .fn :: .operator .lparen :: us ++
          .operator .rparen :: .operator .colon :: .literal ret :: vs)
        (.lambda .unknown ret params .unknown body)

/-- Statements between braces, with some number of signs. -/
inductive Block : Nat → List Word → List Node → Prop
  | mk {n : Nat} {ws : List Word} {stmts : List Node} : Statements n ws stmts →
      Block n (.operator .lcurl :: ws ++ [.operator .rcurl]) stmts

/-- A binding without its semicolon, with some number of signs. -/
inductive Assignment : Nat → List Word → Node → Prop
  | mk {n : Nat} {us vs : List Word} {x y : Node} : BindingName us x → Expression n vs y →
      Assignment n (.operator .bind :: us ++ .operator .assign :: vs)
        (.expression .unknown .bind x y)

/-- A binding or an expression, and its semicolon, with some number of signs. -/
inductive Statement : Nat → List Word → Node → Prop
  | assignment {n : Nat} {ws : List Word} {x : Node} : Assignment n ws x →
      Statement n (ws ++ [.operator .semicolon]) x
  | expression {n : Nat} {ws : List Word} {x : Node} : Expression n ws x →
      Statement n (ws ++ [.operator .semicolon]) x

/-- Any number of statements with some number of signs. -/
inductive Statements : Nat → List Word → List Node → Prop
  | nil : Statements 0 [] []
  | cons {m n : Nat} {us vs : List Word} {x : Node} {stmts : List Node} : Statement m us x →
      Statements n vs stmts → Statements (m + n) (us ++ vs) (x :: stmts)

end

/-- The words of a whole source with some number of signs, and its tree. -/
inductive Module : Nat → List Word → Node → Prop
  | mk {n : Nat} {ws : List Word} {stmts : List Node} : Statements n ws stmts →
      Module n ws (.module .unknown stmts)

/-! ## Forgetting the number

Without their numbers the rules are those of the grammar. -/

variable {n : Nat} {l : Layer} {ws : List Word} {x : Node} {stmts : List Node}

/-- Words that derive with some signs derive. -/
theorem Arith.forget (h : Arith n l ws x) : Grammar.Arith l ws x := by
  induction h with
  | term _ ih => exact .term ih
  | sum _ hop _ ihx ihy => exact .sum ihx hop ihy
  | factor _ ih => exact .factor ih
  | product _ hop _ ihx ihy => exact .product ihx hop ihy
  | atom _ ih => exact .atom ih
  | power _ _ ihx ihy => exact .power ihx ihy
  | literal text => exact .literal text
  | minus _ ih => exact .minus ih
  | plus _ ih => exact .plus ih
  | parens _ ih => exact .parens ih

mutual

theorem Expression.forget : ∀ {n : Nat} {ws : List Word} {x : Node}, Expression n ws x →
    Grammar.Expression ws x
  | _, _, _, .block h => .block h.forget
  | _, _, _, .lambda h => .lambda h.forget
  | _, _, _, .arith h => .arith h.forget

theorem Lambda.forget : ∀ {n : Nat} {ws : List Word} {x : Node}, Lambda n ws x →
    Grammar.Lambda ws x
  | _, _, _, .mk ret hparams hbody => .mk ret hparams hbody.forget

theorem Block.forget : ∀ {n : Nat} {ws : List Word} {stmts : List Node}, Block n ws stmts →
    Grammar.Block ws stmts
  | _, _, _, .mk h => .mk h.forget

theorem Assignment.forget : ∀ {n : Nat} {ws : List Word} {x : Node}, Assignment n ws x →
    Grammar.Assignment ws x
  | _, _, _, .mk hname hvalue => .mk hname hvalue.forget

theorem Statement.forget : ∀ {n : Nat} {ws : List Word} {x : Node}, Statement n ws x →
    Grammar.Statement ws x
  | _, _, _, .assignment h => .assignment h.forget
  | _, _, _, .expression h => .expression h.forget

theorem Statements.forget : ∀ {n : Nat} {ws : List Word} {stmts : List Node},
    Statements n ws stmts → Grammar.Statements ws stmts
  | _, _, _, .nil => .nil
  | _, _, _, .cons hx hmore => .cons hx.forget hmore.forget

end

/-! ## Counting

A derivation of the grammar is counted rule by rule. -/

/-- Every derivation has some number of signs. -/
theorem Arith.exists_signs (h : Grammar.Arith l ws x) : ∃ n, Arith n l ws x := by
  -- The numbers of the parts add up, and the rules for signs add one.
  induction h with
  | term _ ih =>
    obtain ⟨n, hn⟩ := ih
    exact ⟨n, .term hn⟩
  | sum _ hop _ ihx ihy =>
    obtain ⟨m, hm⟩ := ihx
    obtain ⟨n, hn⟩ := ihy
    exact ⟨m + n, .sum hm hop hn⟩
  | factor _ ih =>
    obtain ⟨n, hn⟩ := ih
    exact ⟨n, .factor hn⟩
  | product _ hop _ ihx ihy =>
    obtain ⟨m, hm⟩ := ihx
    obtain ⟨n, hn⟩ := ihy
    exact ⟨m + n, .product hm hop hn⟩
  | atom _ ih =>
    obtain ⟨n, hn⟩ := ih
    exact ⟨n, .atom hn⟩
  | power _ _ ihx ihy =>
    obtain ⟨m, hm⟩ := ihx
    obtain ⟨n, hn⟩ := ihy
    exact ⟨m + n, .power hm hn⟩
  | literal text => exact ⟨0, .literal text⟩
  | minus _ ih =>
    obtain ⟨n, hn⟩ := ih
    exact ⟨n + 1, .minus hn⟩
  | plus _ ih =>
    obtain ⟨n, hn⟩ := ih
    exact ⟨n + 1, .plus hn⟩
  | parens _ ih =>
    obtain ⟨n, hn⟩ := ih
    exact ⟨n, .parens hn⟩

mutual

theorem Expression.exists_signs : ∀ {ws : List Word} {x : Node}, Grammar.Expression ws x →
    ∃ n, Expression n ws x
  | _, _, .block h => by
    obtain ⟨n, hn⟩ := Block.exists_signs h
    exact ⟨n, .block hn⟩
  | _, _, .lambda h => by
    obtain ⟨n, hn⟩ := Lambda.exists_signs h
    exact ⟨n, .lambda hn⟩
  | _, _, .arith h => by
    obtain ⟨n, hn⟩ := Arith.exists_signs h
    exact ⟨n, .arith hn⟩

theorem Lambda.exists_signs : ∀ {ws : List Word} {x : Node}, Grammar.Lambda ws x →
    ∃ n, Lambda n ws x
  | _, _, .mk ret hparams hbody => by
    obtain ⟨n, hn⟩ := Block.exists_signs hbody
    exact ⟨n, .mk ret hparams hn⟩

theorem Block.exists_signs : ∀ {ws : List Word} {stmts : List Node}, Grammar.Block ws stmts →
    ∃ n, Block n ws stmts
  | _, _, .mk h => by
    obtain ⟨n, hn⟩ := Statements.exists_signs h
    exact ⟨n, .mk hn⟩

theorem Assignment.exists_signs : ∀ {ws : List Word} {x : Node}, Grammar.Assignment ws x →
    ∃ n, Assignment n ws x
  | _, _, .mk hname hvalue => by
    obtain ⟨n, hn⟩ := Expression.exists_signs hvalue
    exact ⟨n, .mk hname hn⟩

theorem Statement.exists_signs : ∀ {ws : List Word} {x : Node}, Grammar.Statement ws x →
    ∃ n, Statement n ws x
  | _, _, .assignment h => by
    obtain ⟨n, hn⟩ := Assignment.exists_signs h
    exact ⟨n, .assignment hn⟩
  | _, _, .expression h => by
    obtain ⟨n, hn⟩ := Expression.exists_signs h
    exact ⟨n, .expression hn⟩

theorem Statements.exists_signs : ∀ {ws : List Word} {stmts : List Node},
    Grammar.Statements ws stmts → ∃ n, Statements n ws stmts
  | _, _, .nil => ⟨0, .nil⟩
  | _, _, .cons hx hmore => by
    obtain ⟨m, hm⟩ := Statement.exists_signs hx
    obtain ⟨n, hn⟩ := Statements.exists_signs hmore
    exact ⟨m + n, .cons hm hn⟩

end

end Signed

/-- Counting the signs of a derivation changes nothing about what is derived. -/
theorem module_iff_exists_signs {ws : List Word} {t : Node} :
    Module ws t ↔ ∃ n, Signed.Module n ws t := by
  constructor
  · rintro ⟨h⟩
    obtain ⟨n, hn⟩ := Signed.Statements.exists_signs h
    exact ⟨n, .mk hn⟩
  · rintro ⟨n, ⟨h⟩⟩
    exact .mk h.forget

end LetFn.Grammar
