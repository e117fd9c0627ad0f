/-!
# The default limits

Every number that bounds a parse or the report of one stands here once.  Three of
them bound nesting: how deep a guarded rule may nest, how many stack frames stay
reserved for the caller, and how many frames one nesting level is budgeted.  The
others bound the size of a source text and the width of the window that a rendered
failure shows.
-/

namespace Descent
namespace Limits

/-- How deep a guarded rule may nest when nothing else is asked for. -/
def maxDepth : Int := 64

/-- Stack frames that stay free for the caller when a requested depth is clamped. -/
def reserveFrames : Int := 50

/-- Stack frames budgeted for one nesting level of a guarded rule. -/
def framesPerLevel : Int := 10

/-- The largest source text, in characters, that a document parser accepts unless it is
told otherwise. -/
def maxSourceSize : Int := 10 * 1024 * 1024

/-- How many characters a rendered failure shows on each side of the mark. -/
def contextWidth : Nat := 20

/-- The characters that count as white space for the primitive of that name: blank,
tab and line feed. -/
def whitespace : List Char := [' ', '\t', '\n']

/-- How many calls may be active at one time.  Requested depths are clamped against it,
and it bounds how many references of a grammar are followed at one time. -/
def recursionLimit : Nat := 1000

end Limits
end Descent
