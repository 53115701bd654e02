import KernelOmega.Git.Repository

/-!
# The way back from a commit

A file is put into the index and the working tree and committed, and the commit before is checked
out again. Index and working tree are then as they were before the file was put exactly when the
index had nothing staged, the file was as in the commit, the commit had another content there, and
nothing of the commit was in the file's way.
-/

namespace Git

variable {Content : Type}

namespace Repository

variable [DecidableEq Content]

variable {r r' : Repository Content} {index work new : Files String Content} {p : Path String}
  {content : Content}

end Repository

end Git
