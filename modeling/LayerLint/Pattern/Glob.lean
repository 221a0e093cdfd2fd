/-!
# Globs

A glob is a list of tokens, each standing for one character or, in the case of `*`, for a run of
them. No token but the slash itself stands for a slash.
-/

namespace LayerLint.Pattern

/-- The characters from `low` to `high`, by code point. -/
structure CharRange where
  low : Char
  high : Char
  deriving DecidableEq, Repr

/-- Whether a character lies in a range. -/
def CharRange.has (r : CharRange) (c : Char) : Bool :=
  r.low.toNat ≤ c.toNat && c.toNat ≤ r.high.toNat

/-- One part of a glob. -/
inductive Token where
  /-- This character. -/
  | char (c : Char)
  /-- Any one character but a slash. -/
  | any
  /-- Any run of characters without a slash. -/
  | run
  /-- One character of a class. -/
  | within (ranges : List CharRange)
  /-- One character outside a class. -/
  | without (ranges : List CharRange)
  deriving DecidableEq, Repr

/-- Whether a token that stands for one character stands for `c`. -/
def Token.admits (c : Char) : Token → Bool
  | .char d => c == d
  | .any => c != '/'
  | .run => false
  | .within ranges => c != '/' && ranges.any (·.has c)
  | .without ranges => c != '/' && !ranges.any (·.has c)

/-! ## Reading -/

/-- The ranges spelled by the inside of a class. A hyphen between two characters makes a range;
a reversed range is empty. -/
def readRanges : List Char → List CharRange
  | low :: '-' :: high :: rest => ⟨low, high⟩ :: readRanges rest
  | c :: rest => ⟨c, c⟩ :: readRanges rest
  | [] => []

/-- Cuts at the closing bracket of a class, whose first member may itself be a bracket. -/
def cutClass : List Char → Option (List Char × List Char)
  | [] => none
  | first :: rest =>
    match rest.dropWhile (· ≠ ']') with
    | [] => none
    | _ :: after => some (first :: rest.takeWhile (· ≠ ']'), after)

/-- `readTokens` with a bound on the number of tokens. -/
def readTokensWithin : Nat → List Char → Option (List Token)
  | _, [] => some []
  | 0, _ :: _ => none
  | n + 1, '?' :: rest => (readTokensWithin n rest).map (.any :: ·)
  | n + 1, '*' :: rest => (readTokensWithin n rest).map (.run :: ·)
  | n + 1, '[' :: '!' :: rest => do
    let (inside, after) ← cutClass rest
    let tokens ← readTokensWithin n after
    return .without (readRanges inside) :: tokens
  | n + 1, '[' :: rest => do
    let (inside, after) ← cutClass rest
    let tokens ← readTokensWithin n after
    return .within (readRanges inside) :: tokens
  | n + 1, c :: rest => (readTokensWithin n rest).map (.char c :: ·)

/-- The tokens of a glob; nothing when a bracket opens no class. -/
def readTokens (glob : List Char) : Option (List Token) :=
  readTokensWithin glob.length glob

/-! ## Matching -/

/-- Answers for a token that takes one character, from those for the tokens after it. Answers are
listed for every end of the text, the whole text first and the empty end last. -/
def takeOne (token : Token) : List Char → List Bool → List Bool
  | c :: cs, _ :: next => (token.admits c && next.headD false) :: takeOne token cs next
  | _, _ => [false]

/-- Answers for a run, from those for the tokens after it. -/
def takeRun : List Char → List Bool → List Bool
  | c :: cs, answer :: next =>
    let rest := takeRun cs next
    (answer || (c != '/' && rest.headD false)) :: rest
  | _, next => next

/-- Whether the tokens stand for each end of the text. -/
def answers : List Token → List Char → List Bool
  | [], cs => cs.map (fun _ => false) ++ [true]
  | .run :: tokens, cs => takeRun cs (answers tokens cs)
  | token :: tokens, cs => takeOne token cs (answers tokens cs)

/-- Whether the tokens stand for the whole text. -/
def tokensMatch (tokens : List Token) (cs : List Char) : Bool :=
  (answers tokens cs).headD false

end LayerLint.Pattern
