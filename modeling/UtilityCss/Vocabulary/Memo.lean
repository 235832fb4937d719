import Std.Data.TreeSet
import UtilityCss.Vocabulary

/-!
# Memos

A memo keeps what a vocabulary answered for the tokens asked so far. Blocklisted tokens are refused from the
start, whatever the vocabulary says.
-/

namespace UtilityCss

/-- The utilities accepted and the tokens refused so far. -/
structure Memo where
  accepted : Std.TreeMap String Utility
  refused : Std.TreeSet String

namespace Memo

/-- The memo before the first question. -/
def ofBlocklist (blocklist : List String) : Memo :=
  ⟨∅, .ofList blocklist⟩

/-- The answer for a token, and the memo that knows it. -/
def read (memo : Memo) (v : Vocabulary) (token : String) : Option Utility × Memo :=
  if memo.refused.contains token then (none, memo)
  else
    match memo.accepted[token]? with
    | some utility => (some utility, memo)
    | none =>
      match v.read? token with
      | some utility => (some utility, { memo with accepted := memo.accepted.insert token utility })
      | none => (none, { memo with refused := memo.refused.insert token })

def isRefused (memo : Memo) (token : String) : Bool :=
  memo.refused.contains token

def size (memo : Memo) : Nat :=
  memo.accepted.size

def isEmpty (memo : Memo) : Bool :=
  memo.accepted.isEmpty

end Memo

end UtilityCss
