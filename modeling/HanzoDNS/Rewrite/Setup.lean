import HanzoDNS.Rewrite.Basic

open Dns Strings

namespace Rewrite

def exactMatch : Str := "exact"
def prefixMatch : Str := "prefix"
def suffixMatch : Str := "suffix"
def substringMatch : Str := "substring"
def regexMatch : Str := "regex"
def answerMatch : Str := "answer"
def autoMatch : Str := "auto"
def nameMatch : Str := "name"
def valueMatch : Str := "value"

def maxRegexpLen : Nat := 10000

section Rules

variable (nextAction : Mode) (auto : Bool) (replacement : Str) (answers : List ResponseRule)

def newExactNameRule (orig : Str) : Rule :=
  .exactNameRule ⟨nextAction, true, replacement, answers⟩ orig

def newPrefixNameRule (leading : Str) : Rule :=
  .prefixNameRule ⟨nextAction, auto, replacement, answers⟩ leading

-- The rule can be undone for every name, and not only for the one in the question.
def newSuffixNameRule (suffix : Str) : Rule :=
  let rewriter := .suffix replacement suffix
  let rules := if auto then [.name rewriter, .value rewriter] else []
  .suffixNameRule ⟨nextAction, false, replacement, rules ++ answers⟩ suffix

def newSubstringNameRule (substring : Str) : Rule :=
  .substringNameRule ⟨nextAction, auto, replacement, answers⟩ substring

def newRegexNameRule (pattern : Regexp) : Rule :=
  .regexNameRule ⟨nextAction, auto, replacement, answers⟩ pattern

end Rules

def getSubExprUsage (s : Str) : Nat :=
  (List.range 101).countP fun i => contains s ('\x7b' :: Strconv.itoa i ++ ['\x7d'])

-- A string in quotes, if it has no quotes itself.
def quote (s : Str) : Str :=
  '"' :: s ++ ['"']

structure Answers where
  auto : Bool := false
  rules : List ResponseRule := []
  nameRules : Nat := 0

-- The functions that make a name fully qualified and that compile an expression are parameters.
variable (fqdn : Str → Str) (compile : Str → Option Regexp)

def normalize (name : Str) : Str :=
  toLower (fqdn name)

def isValidRegexPattern (rewriteFrom rewriteTo : Str) : Except Str Regexp :=
  if len rewriteFrom > maxRegexpLen then
    .error ("regex pattern too long: " ++ Strconv.itoa (len rewriteFrom) ++ " > " ++ Strconv.itoa maxRegexpLen)
  else
    match compile rewriteFrom with
    | none => .error ("invalid regex matching pattern: " ++ rewriteFrom)
    | some pattern =>
      if getSubExprUsage rewriteTo > pattern.numSubexp then
        .error ("the rewrite regex pattern (" ++ rewriteTo ++
          ") uses more subexpressions than its corresponding matching regex pattern (" ++ rewriteFrom ++ ")")
      else
        .ok pattern

def parseAnswersFrom (name : Str) : Nat → (last : Str) → List Str → Answers → Except Str Answers
  | _, _, [], answers => .ok answers
  | 0, _, _, answers => .ok answers
  | n + 1, last, arg :: args, answers =>
    if last = [] ∧ arg ≠ answerMatch then
      .error ("exceeded the number of arguments for a non-answer rule argument for " ++ name ++ " rule")
    else
      match if arg = answerMatch then args else arg :: args with
      | [] => .error ("type missing for answer rule for " ++ name ++ " rule")
      | last :: args =>
        if last = autoMatch then
          parseAnswersFrom name n last args { answers with auto := true }
        else if last = nameMatch ∨ last = valueMatch then
          match args with
          | rewriteFrom :: rewriteTo :: args =>
            match isValidRegexPattern compile rewriteFrom rewriteTo with
            | .error err => .error (last ++ " answer rule for " ++ name ++ " rule: " ++ err)
            | .ok pattern =>
              let rewriter := .regex pattern (normalize fqdn rewriteTo)
              if last = nameMatch then
                parseAnswersFrom name n last args
                  { answers with rules := answers.rules ++ [.name rewriter], nameRules := answers.nameRules + 1 }
              else
                parseAnswersFrom name n last args { answers with rules := answers.rules ++ [.value rewriter] }
          | _ => .error (last ++ " answer rule for " ++ name ++ " rule: 2 arguments required")
        else
          .error ("invalid type " ++ quote last ++ " for answer rule for " ++ name ++ " rule")

def parseAnswerRules (name : Str) (args : List Str) : Except Str (Bool × List ResponseRule) :=
  if args.length < 2 then
    .error ("invalid arguments for " ++ name ++ " rule")
  else
    match parseAnswersFrom fqdn compile name args.length [] args {} with
    | .error err => .error err
    | .ok answers =>
      if answers.auto ∧ answers.nameRules > 0 then
        .error "auto name answer rule cannot be combined with explicit name anwer rules".toList
      else
        .ok (answers.auto, answers.rules)

def closed (s : Str) : Str :=
  if hasSuffix s ['.'] then s else s ++ ['.']

def newMatchedRule (nextAction : Mode) (matchType rewriteFrom rewriteTo : Str) (auto : Bool)
    (answers : List ResponseRule) : Except Str Rule :=
  let «from» := normalize fqdn rewriteFrom
  let «to» := normalize fqdn rewriteTo
  if matchType = exactMatch then
    match isValidRegexPattern compile (closed «to») (closed «from») with
    | .error err => .error err
    | .ok _ => .ok (newExactNameRule nextAction (closed «to») answers (closed «from»))
  else if matchType = prefixMatch then
    .ok (newPrefixNameRule nextAction auto «to» answers «from»)
  else if matchType = suffixMatch then
    .ok (newSuffixNameRule nextAction auto (closed «to») answers (closed «from»))
  else if matchType = substringMatch then
    .ok (newSubstringNameRule nextAction auto «to» answers «from»)
  else if matchType = regexMatch then
    match isValidRegexPattern compile rewriteFrom rewriteTo with
    | .error err => .error err
    | .ok pattern => .ok (newRegexNameRule nextAction auto «to» answers pattern)
  else
    .error ("name rule supports only exact, prefix, suffix, substring, and regex name matching, received: " ++ matchType)

def parseAnswers (matchType : Str) (args : List Str) : Except Str (Bool × List ResponseRule) :=
  if args = [] then .ok (false, []) else parseAnswerRules fqdn compile matchType args

def newNameRule (nextAction : Mode) : List Str → Except Str Rule
  | [rewriteFrom, rewriteTo] =>
    newMatchedRule fqdn compile nextAction exactMatch rewriteFrom rewriteTo false []
  | kind :: rewriteFrom :: rewriteTo :: args =>
    match parseAnswers fqdn compile (toLower kind) args with
    | .error err => .error err
    | .ok (auto, answers) => newMatchedRule fqdn compile nextAction (toLower kind) rewriteFrom rewriteTo auto answers
  | _ => .error "too few arguments for a name rule".toList

end Rewrite
