/-!
Text in order: characters are compared by their numbers, from the left.
-/
namespace Cascade.Text

def sorted (xs : List String) : List String := xs.mergeSort fun a b => !decide (b < a)

end Cascade.Text
