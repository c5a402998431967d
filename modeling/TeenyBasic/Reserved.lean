/-!
# Reserved names

Names of variables and labels are copied into the generated C program, so they must not clash with
names that mean something there. Keywords of C and the macros of its input and output header are
closed to both. Labels have a name space of their own in C, so the names that the generated program
uses for itself are closed to variables only.

Names hold letters and digits only, so words with an underscore are not listed.
-/

namespace TeenyBasic.Reserved

/-- The keywords of C. -/
def keywords : List String :=
  ["auto", "break", "case", "char", "const", "continue", "default", "do", "double", "else", "enum",
   "extern", "float", "for", "goto", "if", "inline", "int", "long", "register", "restrict",
   "return", "short", "signed", "sizeof", "static", "struct", "switch", "typedef", "union",
   "unsigned", "void", "volatile", "while"]

/-- The macros of the input and output header that take no arguments. -/
def macroNames : List String :=
  ["EOF", "NULL", "BUFSIZ", "stdin", "stdout", "stderr"]

/-- The names that the generated program uses itself. -/
def generated : List String :=
  ["main", "argc", "argv", "printf", "scanf"]

/-- The names closed to labels. -/
def labelNames : List String :=
  keywords ++ macroNames

/-- The names closed to variables. -/
def variableNames : List String :=
  labelNames ++ generated

theorem labelNames_subset_variableNames : labelNames ⊆ variableNames :=
  List.subset_append_left labelNames generated

end TeenyBasic.Reserved
