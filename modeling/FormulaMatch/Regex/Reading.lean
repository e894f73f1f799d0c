import FormulaMatch.Regex.Basic
import FormulaMatch.Regex.Token

/-! Reading a text as a regular expression. -/

namespace FormulaMatch

structure RegexFlags where
  ignoreCase : Bool := false
  dotAll : Bool := false
  deriving DecidableEq, Repr

def RegexFlags.apply (flags : RegexFlags) (change : FlagChange) : RegexFlags where
  ignoreCase := change.ignoreCase.getD flags.ignoreCase
  dotAll := change.dotAll.getD flags.dotAll

/-- A group being read: the flags in force, the alternatives that are complete and the items of the
last one, both last first. An item that only sets flags is `none` and cannot be repeated. -/
structure RegexGroup where
  flags : RegexFlags := {}
  alternatives : List Regex := []
  items : List (Option Regex) := []
  deriving DecidableEq, Repr

namespace RegexGroup

def push (group : RegexGroup) (item : Option Regex) : RegexGroup :=
  { group with items := item :: group.items }

def row (group : RegexGroup) : Regex :=
  group.items.reverse.foldr (fun item r => .concat (item.getD .empty) r) .empty

def regex (group : RegexGroup) : Regex :=
  group.alternatives.foldl (fun r alternative => .either alternative r) group.row

end RegexGroup

namespace Regex

/-- The expression that tokens complete, in the innermost group `group` with `outer` around it. -/
def ofTokens (group : RegexGroup) (outer : List RegexGroup) :
    List RegexToken → Except RegexError Regex
  | [] => if outer.isEmpty then .ok group.regex else .error .unclosedGroup
  | token :: tokens =>
    match token with
    | .one set => ofTokens (group.push (some (.one group.flags.ignoreCase set))) outer tokens
    | .anyChar =>
      let set := if group.flags.dotAll then CharSet.all else .notLineFeed
      ofTokens (group.push (some (.one false set))) outer tokens
    | .textStart => ofTokens (group.push (some .textStart)) outer tokens
    | .textEnd => ofTokens (group.push (some .textEnd)) outer tokens
    | .openGroup change _ =>
      ofTokens { flags := group.flags.apply change } (group :: outer) tokens
    | .closeGroup =>
      match outer with
      | [] => .error .unopenedGroup
      | around :: outer => ofTokens (around.push (some group.regex)) outer tokens
    | .bar =>
      ofTokens { group with alternatives := group.row :: group.alternatives, items := [] } outer
        tokens
    | .setFlags change =>
      ofTokens ({ group with flags := group.flags.apply change }.push none) outer tokens
    | .repeated least most =>
      match group.items with
      | some r :: items =>
        ofTokens { group with items := some (.repeated least most r) :: items } outer tokens
      | _ => .error .nothingToRepeat

def groupNames (tokens : List RegexToken) : List (List Char) :=
  tokens.filterMap fun
    | .openGroup _ name => name
    | _ => none

def read (cs : List Char) : Except RegexError Regex := do
  let symbols ← regexSymbols cs
  let tokens ← regexTokens symbols
  if (groupNames tokens).Nodup then ofTokens {} [] tokens else .error .repeatedGroupName

end Regex

end FormulaMatch
