/-!
Why a text is no YAML document this library reads.
-/
namespace Cascade

inductive YamlError
  /-- A control character somewhere in the text. -/
  | controlCharacter
  | unexpectedCharacter
  /-- A block entry, key or value where none may begin. -/
  | misplaced (what : String)
  | missingColon
  | malformedDirective
  | malformedAnchor
  | malformedTag
  | undefinedTagHandle (handle : String)
  | malformedEscape
  | tabIndentation
  | malformedBlockHeader
  | unclosedQuote
  | ambiguousColon
  | unexpectedToken (expected : String)
  | severalDocuments
  | unknownAnchor (name : String)
  | duplicateKey
  | integerTooLarge
  | wrongTag (expected : String)
  | tooDeep
  | tooManyAliases
  deriving DecidableEq, Inhabited

def YamlError.message : YamlError → String
  | controlCharacter => "control characters are not allowed"
  | unexpectedCharacter => "found character that cannot start any token"
  | misplaced what => what ++ " are not allowed in this context"
  | missingColon => "could not find expected ':'"
  | malformedDirective => "malformed directive"
  | malformedAnchor => "did not find expected alphabetic or numeric character"
  | malformedTag => "malformed tag"
  | undefinedTagHandle handle => "found undefined tag handle " ++ handle
  | malformedEscape => "found unknown escape character"
  | tabIndentation => "found a tab character that violates indentation"
  | malformedBlockHeader => "malformed block scalar header"
  | unclosedQuote => "found unexpected end of quoted scalar"
  | ambiguousColon => "found unexpected ':'"
  | unexpectedToken expected => "did not find expected " ++ expected
  | severalDocuments => "more than one document"
  | unknownAnchor name => "unknown anchor " ++ name
  | duplicateKey => "duplicate key in mapping"
  | integerTooLarge => "integer out of range"
  | wrongTag expected => "invalid value, expected " ++ expected
  | tooDeep => "recursion limit exceeded"
  | tooManyAliases => "repetition limit exceeded"

end Cascade
