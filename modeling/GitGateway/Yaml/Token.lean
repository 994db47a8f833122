/-!
# Tokens of a YAML text

What a YAML text is made of once blanks, comments and indentation are accounted for.  Indentation
shows as the start and end of block collections, and the start of a key as a token before it.
-/

namespace GitGateway.Yaml

/-- How a scalar is written. -/
inductive ScalarStyle where
  | plain
  | singleQuoted
  | doubleQuoted
  | literal
  | folded
deriving DecidableEq, Repr

/-- One token. -/
inductive Token where
  | version (major minor : Nat)
  /-- A directive that lets a tag handle stand for the start of a tag. -/
  | tagDirective (handle start : String)
  | documentStart
  | documentEnd
  | blockSequenceStart
  | blockMappingStart
  | blockEnd
  | flowSequenceStart
  | flowSequenceEnd
  | flowMappingStart
  | flowMappingEnd
  | blockEntry
  | flowEntry
  | key
  | value
  | alias (name : String)
  | anchor (name : String)
  | tag (handle suffix : String)
  | scalar (style : ScalarStyle) (text : String)
deriving DecidableEq, Repr

end GitGateway.Yaml
