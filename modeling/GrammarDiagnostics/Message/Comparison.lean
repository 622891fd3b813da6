import GrammarDiagnostics.Message.Argument

/-! # Comparing arguments

* `Argument.same`: equality. Truth values and kinds count as their numbers; sequences of one sort
  are compared item by item; a file is the same as itself only, and line maps and foreign objects
  are never the same as others.
* `Argument.order`: the order of two arguments, where there is one: numbers by value, texts by code
  point, positions by line and character, sequences by the first items that are not the same.
* `Comparison`, `Argument.compare`: the four questions about the order, and the answer or an
  `Incomparable`.
-/

set_option autoImplicit false

namespace GrammarDiagnostics

variable {φ : Type}

/-- Two arguments without an order between them, by the names of their classes. -/
structure Incomparable where
  left : String
  right : String
  deriving DecidableEq, Repr

/-- A question about the order of two values. -/
inductive Comparison where
  | less
  | atMost
  | greater
  | atLeast
  deriving DecidableEq, Repr

namespace Comparison

/-- The sign of a comparison. -/
def sign : Comparison → String
  | .less => "<"
  | .atMost => "<="
  | .greater => ">"
  | .atLeast => ">="

/-- Whether a comparison holds of two values in a given order. -/
def holds : Comparison → Ordering → Bool
  | .less, o => o.isLT
  | .atMost, o => o.isLE
  | .greater, o => o.isGT
  | .atLeast, o => o.isGE

end Comparison

/-- What is said when a comparison is asked of two values without an order. -/
def Incomparable.message (c : Comparison) (i : Incomparable) : String :=
  "'" ++ c.sign ++ "' not supported between instances of '" ++ i.left ++ "' and '" ++ i.right ++ "'"

namespace Argument

/-- The name of the class of an argument. -/
def className : Argument φ → String
  | .none => "NoneType"
  | .bool _ => "bool"
  | .int _ => "int"
  | .string _ => "str"
  | .list _ => "list"
  | .tuple _ => "tuple"
  | .kind _ => "SyntaxKind"
  | .position _ => "Position"
  | .range _ => "Range"
  | .node _ => "Node"
  | .diagnostic _ => "Diagnostic"
  | .lineMap _ => "LineMap"
  | .sourceFile _ => "SourceFile"
  | .options _ => "DiagnosticInfoOptions"
  | .other o => o.className

/-- The number that an argument counts as. -/
def number? : Argument φ → Option Int
  | .bool b => some (if b then 1 else 0)
  | .int n => some n
  | .kind k => some k.code
  | _ => Option.none

section Comparing

variable [DecidableEq φ]

mutual

/-- Whether two arguments are the same. -/
def same : Argument φ → Argument φ → Bool
  | .none, .none => true
  | .string s, .string t => s = t
  | .list xs, .list ys => sameItems xs ys
  | .tuple xs, .tuple ys => sameItems xs ys
  | .position p, .position q => p = q
  | .range r, .range s => r = s
  | .node m, .node n => m = n
  | .diagnostic d, .diagnostic e => d = e
  | .sourceFile f, .sourceFile g => f = g
  | .options o, .options p => o = p
  | a, b =>
    match a.number?, b.number? with
    | some m, some n => m = n
    | _, _ => false

/-- Whether two sequences have the same items. -/
def sameItems : List (Argument φ) → List (Argument φ) → Bool
  | [], [] => true
  | x :: xs, y :: ys => same x y && sameItems xs ys
  | _, _ => false

end

mutual

/-- The order of two arguments, when there is one. -/
def order : Argument φ → Argument φ → Except Incomparable Ordering
  | .string s, .string t => .ok (Ord.compare s t)
  | .list xs, .list ys => orderItems xs ys
  | .tuple xs, .tuple ys => orderItems xs ys
  | .position p, .position q => .ok (Ord.compare p q)
  | a, b =>
    match a.number?, b.number? with
    | some m, some n => .ok (Ord.compare m n)
    | _, _ => .error ⟨a.className, b.className⟩

/-- The order of two sequences: that of the first items which are not the same, else the shorter
one comes first. -/
def orderItems : List (Argument φ) → List (Argument φ) → Except Incomparable Ordering
  | [], [] => .ok .eq
  | [], _ :: _ => .ok .lt
  | _ :: _, [] => .ok .gt
  | x :: xs, y :: ys => if same x y then orderItems xs ys else order x y

end

/-- The answer to a question about the order of two arguments. -/
def compare (c : Comparison) (a b : Argument φ) : Except Incomparable Bool :=
  (order a b).map c.holds

end Comparing

end Argument

end GrammarDiagnostics
