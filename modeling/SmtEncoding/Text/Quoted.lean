import SmtEncoding.Text.Hidden

/-!
# Quoted text

A text is shown between double quotes.  A double quote and a backslash are escaped by a backslash,
the characters NUL, tab, line feed and carriage return have escapes of their own, and every other
hidden character is written by its code point, as `\u` with hexadecimal digits in braces.
-/

namespace SmtEncoding.Text

/-- The code point of a character in braces. -/
def codePoint (c : Char) : List Char :=
  '\\' :: 'u' :: '\x7b' :: (Nat.toDigits 16 c.toNat ++ ['\x7d'])

/-- A character between double quotes. -/
def quoteChar (c : Char) : List Char :=
  match c with
  | '"' => ['\\', '"']
  | '\\' => ['\\', '\\']
  | '\x00' => ['\\', '0']
  | '\t' => ['\\', 't']
  | '\n' => ['\\', 'n']
  | '\r' => ['\\', 'r']
  | c => if isHidden c then codePoint c else [c]

/-- A text between double quotes. -/
def quote (s : String) : String := String.ofList ('"' :: (s.toList.flatMap quoteChar ++ ['"']))

/-! ## Tests -/

section Tests

example : quote "a\"b\\'" = "\"a\\\"b\\\\'\"" := by decide +kernel
example : quote "\t\n\x00" = "\"\\t\\n\\0\"" := by decide +kernel
/-- A letter with an accent is not hidden, an accent alone and a soft hyphen are. -/
example : quote "é" = "\"é\"" := by decide +kernel
example : quote "\u0301" = "\"\\u\x7b301\x7d\"" := by decide +kernel
example : quote "\u00ad" = "\"\\u\x7bad\x7d\"" := by decide +kernel

end Tests

end SmtEncoding.Text
