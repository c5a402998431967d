/-!
# Help texts

The texts that the command line shows about itself.
-/

namespace TeenyBasic.CommandLine

/-- The line that shows how the command is called. -/
def usageLine : String :=
  "Usage: ttc [OPTIONS] SOURCE_FILE"

/-- The reminder in front of a message about wrong arguments. -/
def usageReminder : String :=
  usageLine ++ "\nTry 'ttc --help' for help.\n\n"

/-- The version of the command. -/
def versionText : String :=
  "ttc, version 1.0.0"

/-- The lines of the help page. -/
def helpLines : List String :=
  [usageLine,
   "",
   "  Compile a Teeny program to C.",
   "",
   "  SOURCE_FILE is the Teeny source file (.teeny) to compile.",
   "",
   "  Examples:",
   "      ttc hello.teeny              # Outputs hello.c",
   "      ttc hello.teeny -o out.c     # Specify output file",
   "      ttc --tokens hello.teeny     # Dump tokens",
   "      ttc -v hello.teeny           # Verbose output",
   "",
   "  Language summary:",
   "      LET x = expr        INPUT x         PRINT expr | \"text\"",
   "      IF cmp THEN ... ENDIF",
   "      WHILE cmp REPEAT ... ENDWHILE",
   "      LABEL name          GOTO name",
   "",
   "Options:",
   "  -o, --output FILE  Output C file (default: source file with .c suffix)",
   "  --tokens           Print the token stream and exit (for debugging)",
   "  -v, --verbose      Verbose output",
   "  --version          Show the version and exit.",
   "  --help             Show this message and exit."]

/-- The help page. -/
def helpText : String :=
  "\n".intercalate helpLines

end TeenyBasic.CommandLine
