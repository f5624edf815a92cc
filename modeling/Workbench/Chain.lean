/-
# Chains of reasons

Why something went wrong: what failed, then why that failed, and so on to the first
cause.
-/

namespace Workbench

/-- Why something went wrong: what failed, then why that failed, and so on. -/
abbrev Chain := List String

/-- The whole chain in one line. -/
def Chain.text (chain : Chain) : String :=
  ": ".intercalate chain

/-- What failed, without the reasons. -/
def Chain.outermost (chain : Chain) : String :=
  chain.headD ""

end Workbench
