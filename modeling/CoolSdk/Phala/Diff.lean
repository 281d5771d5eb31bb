import CoolSdk.Runtime.Value

/-!
# A minimal line diff

The lines two texts share at their start and at their end, with what was removed and added
between them. A change record commits to its rendered form.
-/

namespace CoolSdk

/-- What became of a line. -/
inductive DiffKind
  | context
  | added
  | removed
  deriving DecidableEq, Repr

structure DiffLine where
  kind : DiffKind
  text : String
  deriving DecidableEq, Repr

/-- `text.split("\n")`. -/
def splitLines (text : String) : List String := (text.toList.splitOn '\n').map String.ofList

/-- How many lines two lists share at their start. -/
def commonHead : List String → List String → Nat
  | x :: a, y :: b => if x = y then commonHead a b + 1 else 0
  | _, _ => 0

/-- Diff two texts by line. -/
def lineDiff (before after : String) : List DiffLine :=
  let a := if before.isEmpty then [] else splitLines before
  let b := splitLines after
  let head := commonHead a b
  -- the lines shared at the end are looked for behind those shared at the start
  let tail := commonHead (a.drop head).reverse (b.drop head).reverse
  (a.take head).map (DiffLine.mk .context) ++
    ((a.drop head).take (a.length - head - tail)).map (DiffLine.mk .removed) ++
    ((b.drop head).take (b.length - head - tail)).map (DiffLine.mk .added) ++
    (b.drop (b.length - tail)).map (DiffLine.mk .context)

/-- A line as it is rendered. -/
def DiffLine.render (line : DiffLine) : String :=
  match line.kind with
  | .added => "+" ++ line.text
  | .removed => "-" ++ line.text
  | .context => " " ++ line.text

/-- The text that is committed to. -/
def unifiedDiff (before after : String) : String :=
  "\n".intercalate ((lineDiff before after).map DiffLine.render)

/-! ## The diff says what both texts were -/

end CoolSdk
