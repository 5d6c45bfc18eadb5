/-
Support files: the C code that generated programs are linked with.

* `Support.header`, `Support.source`: a value is a record of a tag and either a
  code pointer with an environment or an integer; the files define how values
  are built and printed.
* `Support.installation`: writes both files into a directory; `Support.install`
  does it in a folder.
-/
import FlatClosure.Command.Script
import FlatClosure.Target.CUnit

namespace FlatClosure.Support

open Command (Script)

/-- Lines, each closed by a line feed. -/
def unlines (lines : List String) : Text := lines.flatMap fun line => Text.ofString (line ++ "\n")

/-- The name of the header. -/
def headerFile : Text := CUnit.headerFile

/-- The name of the source file. -/
def sourceFile : Text := "driver.c"

/-- The header. -/
def header : Text := unlines [
  "#ifndef VAL_H",
  "#define VAL_H",
  "",
  "typedef enum \x7b CLOSURE_T, INT_T \x7d val_tag;",
  "",
  "typedef struct val \x7b",
  "  val_tag tag;",
  "  union \x7b",
  "    struct \x7b",
  "      struct val *(*code)(struct val **, struct val *);",
  "      struct val **env;",
  "    \x7d;",
  "    int integer;",
  "  \x7d c;",
  "\x7d val_t;",
  "",
  "val_t *build_cls(val_t *(*code)(val_t **, val_t *), val_t **env);",
  "val_t *build_int(int val);",
  "void destroy_val(val_t *val);",
  "void print_val(val_t *val);",
  "",
  "#endif /* VAL_H */"]

/-- The source file. -/
def source : Text := unlines [
  "#include \"driver.h\"",
  "#include <err.h>",
  "#include <stdio.h>",
  "#include <stdlib.h>",
  "",
  "void destroy_val(val_t *val) \x7b free(val); \x7d",
  "",
  "struct val *build_cls(val_t *(*code)(val_t **, val_t *), val_t **env) \x7b",
  "  struct val *ret = (struct val *)malloc(sizeof(struct val));",
  "",
  "  if (!ret) \x7b",
  "    err(1, \"malloc error\");",
  "  \x7d",
  "",
  "  ret->tag = CLOSURE_T;",
  "  ret->c.code = code;",
  "  ret->c.env = env;",
  "",
  "  return ret;",
  "\x7d",
  "",
  "struct val *build_int(int val) \x7b",
  "  struct val *ret = (struct val *)malloc(sizeof(struct val));",
  "",
  "  if (!ret) \x7b",
  "    err(1, \"malloc error\");",
  "  \x7d",
  "",
  "  ret->tag = INT_T;",
  "  ret->c.integer = val;",
  "",
  "  return ret;",
  "\x7d",
  "",
  "void print_val(val_t *val) \x7b",
  "  switch (val->tag) \x7b",
  "  case CLOSURE_T:",
  "    printf(\"<#closure>\\n\");",
  "    return;",
  "  case INT_T:",
  "    printf(\"%d\\n\", val->c.integer);",
  "    return;",
  "  default:",
  "    return;",
  "  \x7d",
  "\x7d"]

/-- Writes header and source into a directory; the path of the source file. -/
def installation (dir : Text) : Script FileError Text := do
  Script.write (Path.join dir headerFile) header
  let path := Path.join dir sourceFile
  Script.write path source
  return path

/-- The path of the source file and the folder after the installation. -/
def install (folder : Folder) (dir : Text) : Except FileError Text × Folder :=
  (installation dir).runIn folder

end FlatClosure.Support
